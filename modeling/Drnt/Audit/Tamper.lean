import Drnt.Audit.Integrity

/-! Tamper evidence: the last line of a valid file determines the file. -/
namespace Drnt.Audit

open Lib

section Reading

variable {py : Python} {file : String} {r : Record}

theorem mem_readLines {start idx : Nat} {ls : List Line}
    (h : r ∈ readLines py file start idx ls) :
    r.file = file ∧ r.parsed = parse py r.raw ∧ ∃ l ∈ ls, r.raw = l.raw ∧ isBlank l.raw = false := by
  induction ls generalizing start idx with
  | nil => cases h
  | cons l ls ih =>
    simp only [readLines] at h
    split at h
    case isTrue blank =>
      obtain ⟨same, parsed, l', mem, raw⟩ := ih h
      exact ⟨same, parsed, l', List.mem_cons_of_mem _ mem, raw⟩
    case isFalse text =>
      rcases List.mem_cons.mp h with rfl | h
      · exact ⟨rfl, rfl, l, List.mem_cons_self .., rfl, by simpa using text⟩
      · obtain ⟨same, parsed, l', mem, raw⟩ := ih h
        exact ⟨same, parsed, l', List.mem_cons_of_mem _ mem, raw⟩

theorem parsed_eq {f : LogFile} {i : Nat} (h : r ∈ readFileRecords py f i) :
    r.parsed = parse py r.raw := (mem_readLines h).2.1

/-- Only the first record of a file starts a segment. -/
theorem segmentStartsFrom_same {records : List Record} (same : ∀ r ∈ records, r.file = file) :
    ∀ b ∈ segmentStartsFrom (some file) records, b = false := by
  induction records with
  | nil => exact nofun
  | cons r rest ih =>
    have here : r.file = file := same r (List.mem_cons_self ..)
    intro b mem
    simp only [segmentStartsFrom, here] at mem
    rcases List.mem_cons.mp mem with rfl | mem
    · simp
    · exact ih (fun r mem => same r (List.mem_cons_of_mem _ mem)) b mem

theorem length_segmentStartsFrom (prev : Option String) (records : List Record) :
    (segmentStartsFrom prev records).length = records.length := by
  induction records generalizing prev with
  | nil => rfl
  | cons r rest ih => simp [segmentStartsFrom, ih]

theorem flagged_records (records : List Record) : (flagged records).map (·.2) = records :=
  List.map_snd_zip (Nat.le_of_eq (length_segmentStartsFrom none records).symm)

/-- The records of one file are intact when they form a single chain. -/
theorem intact_iff_linked {records : List Record} (same : ∀ r ∈ records, r.file = file) :
    Intact py records ↔
      HashChain.Linked Record.prevHash? (chainHash py) (genesisHash py) records := by
  have single : ∀ x ∈ (flagged records).tail, x.1 = false := by
    cases records with
    | nil => exact nofun
    | cons r rest =>
      intro x mem
      have here : r.file = file := same r (List.mem_cons_self ..)
      have mem : x ∈ (segmentStartsFrom (some file) rest).zip rest := here ▸ mem
      exact segmentStartsFrom_same (fun r mem => same r (List.mem_cons_of_mem _ mem)) x.1
        (List.of_mem_zip mem).1
  exact (HashChain.chained_iff_linked single).trans (by rw [flagged_records])

end Reading

section Lines

variable {py : Python} {a b : Bytes}

/-- Two lines that differ in one trailing CR at most. -/
def SameLine (a b : Bytes) : Prop :=
  a = b ∨ a = b ++ [carriageReturn] ∨ b = a ++ [carriageReturn]

theorem parse_return (a : Bytes) : parse py (a ++ [carriageReturn]) = parse py a := by
  have ascii : carriageReturn.toNat < 0x80 := by decide
  have decoded := Utf8.decode_append (a := a) (b := []) ascii
  unfold parse
  rw [decoded]
  cases Utf8.decode a with
  | none => rfl
  | some text =>
    have read : Loads.loads py (text ++ [Fin.ofNat _ carriageReturn.toNat]) = Loads.loads py text :=
      Loads.loads_space (by decide) text
    simp only [Option.bind_some, Utf8.decode, Option.map_some, read]

theorem unreturned_cases (a : Bytes) : a = unreturned a ∨ a = unreturned a ++ [carriageReturn] := by
  unfold unreturned
  split
  case isTrue last =>
    exact .inr (List.dropLast_append_getLast? _ last).symm
  case isFalse => exact .inl rfl

theorem parse_unreturned (a : Bytes) : parse py (unreturned a) = parse py a := by
  rcases unreturned_cases a with same | longer
  · rw [← same]
  · conv_rhs => rw [longer]
    exact (parse_return _).symm

theorem sameLine_of_unreturned (h : unreturned a = unreturned b) : SameLine a b := by
  rcases unreturned_cases a with ha | ha <;> rcases unreturned_cases b with hb | hb
  · exact .inl (by rw [ha, hb, h])
  · exact .inr (.inr (by rw [hb, ← h, ← ha]))
  · exact .inr (.inl (by rw [ha, h, ← hb]))
  · exact .inl (by rw [ha, hb, h])

theorem genesis_unparsed : parse py genesisBytes = none := by
  have decoded : Utf8.decode genesisBytes = some (Lib.py "DRNT-GENESIS") := by decide +kernel
  have first : Loads.step py Loads.start (Loads.ch 'D') = .error .decode := by rfl
  have read : Loads.loads py (Lib.py "DRNT-GENESIS") = .error .decode := by
    have cons : Lib.py "DRNT-GENESIS" = Loads.ch 'D' :: Lib.py "RNT-GENESIS" := by decide +kernel
    rw [cons, Loads.loads, Loads.run, List.foldlM_cons, first]
    rfl
  unfold parse
  rw [decoded]
  simp only [read]

end Lines

section Evidence

variable {py : Python}

/-- SHA-256 has no collision among these texts. -/
def CollisionFree (py : Python) (texts : List Bytes) : Prop :=
  ∀ x ∈ texts, ∀ y ∈ texts, py.sha256 x = py.sha256 y → x = y

/-- The texts that the verification of these records hashes: their lines and the genesis text. -/
def hashedTexts (records : List Record) : List Bytes :=
  genesisBytes :: records.map fun r => unreturned r.raw

theorem linked_of_valid {f : LogFile} {i : Nat} {files : List String}
    (h : (classify py (readFileRecords py f i) files).status = .valid) :
    readFileRecords py f i ≠ [] ∧ HashChain.Linked Record.prevHash? (chainHash py)
      (genesisHash py) (readFileRecords py f i) := by
  obtain ⟨some, intact⟩ := classify_valid.mp h
  exact ⟨some, (intact_iff_linked fun r mem => (mem_readLines mem).1).mp intact⟩

/-- Every record of a chain is an object. -/
theorem parsed_of_linked {g : PyStr} {records : List Record} {r : Record}
    (h : HashChain.Linked Record.prevHash? (chainHash py) g records) (mem : r ∈ records) :
    r.parsed ≠ none := by
  induction records generalizing g with
  | nil => cases mem
  | cons x rest ih =>
    rcases List.mem_cons.mp mem with rfl | mem
    · intro out
      have link := h.1
      simp [Record.prevHash?, out] at link
    · exact ih h.2 mem

/-- Two valid files with the same last line have the same lines, up to trailing CRs: no record
before the last can be altered, removed, added or moved. -/
theorem valid_file_unique {f g : LogFile} {i j : Nat} {files files' : List String}
    (hf : (classify py (readFileRecords py f i) files).status = .valid)
    (hg : (classify py (readFileRecords py g j) files').status = .valid)
    (last : (readFileRecords py f i).getLast?.map (·.raw) =
      (readFileRecords py g j).getLast?.map (·.raw))
    (free : CollisionFree py (hashedTexts (readFileRecords py f i ++ readFileRecords py g j))) :
    (readFileRecords py f i).length = (readFileRecords py g j).length ∧
      List.Forall₂ (fun r s => SameLine r.raw s.raw) (readFileRecords py f i)
        (readFileRecords py g j) := by
  obtain ⟨someA, linkedA⟩ := linked_of_valid hf
  obtain ⟨someB, linkedB⟩ := linked_of_valid hg
  have readA (r : Record) (mem : r ∈ readFileRecords py f i) : r.parsed = parse py r.raw :=
    parsed_eq mem
  have readB (r : Record) (mem : r ∈ readFileRecords py g j) : r.parsed = parse py r.raw :=
    parsed_eq mem
  generalize readFileRecords py f i = A at *
  generalize readFileRecords py g j = B at *
  have hashed {r : Record} (mem : r ∈ A ∨ r ∈ B) : unreturned r.raw ∈ hashedTexts (A ++ B) :=
    List.mem_cons_of_mem _ (List.mem_map_of_mem (List.mem_append.mpr mem))
  have read {r : Record} (mem : r ∈ A ∨ r ∈ B) : r.parsed = parse py (unreturned r.raw) := by
    rw [parse_unreturned]
    exact mem.elim (readA r) (readB r)
  have object {r : Record} (mem : r ∈ A ∨ r ∈ B) : r.parsed ≠ none :=
    mem.elim (parsed_of_linked linkedA) (parsed_of_linked linkedB)
  -- two records with the same hash have the same line, and so name the same predecessor
  have both : List.Forall₂ (fun r s => (r ∈ A ∨ r ∈ B) ∧ (s ∈ A ∨ s ∈ B) ∧
      unreturned r.raw = unreturned s.raw) A B := by
    obtain ⟨A', a, rfl⟩ := (List.eq_nil_or_concat' A).resolve_left someA
    obtain ⟨B', b, rfl⟩ := (List.eq_nil_or_concat' B).resolve_left someB
    have sameLast : a.raw = b.raw := by simpa using last
    refine HashChain.Linked.unique ?free ?anchored ?links linkedA linkedB ?last
    case free =>
      intro x hx y hy eq
      have mx : x ∈ A' ++ [a] ∨ x ∈ B' ++ [b] := .inl (List.mem_append_left _ hx)
      have my : y ∈ A' ++ [a] ∨ y ∈ B' ++ [b] := .inr (List.mem_append_left _ hy)
      exact ⟨mx, my, free _ (hashed mx) _ (hashed my) eq⟩
    case anchored =>
      intro x hx eq
      have mx : x ∈ A' ++ [a] ∨ x ∈ B' ++ [b] :=
        hx.imp (List.mem_append_left _) (List.mem_append_left _)
      have same := free _ (hashed mx) _ (List.mem_cons_self ..) eq
      exact object mx (by rw [read mx, same, genesis_unparsed])
    case links =>
      rintro x y ⟨mx, my, same⟩
      simp only [Record.prevHash?, read mx, read my, same]
    case last => exact ⟨.inl (by simp), .inr (by simp), by rw [sameLast]⟩
  exact ⟨both.length_eq, both.imp fun _ _ h => sameLine_of_unreturned h.2.2⟩

/-- The bytes of an ASCII text. -/
def bytesOf (s : String) : Bytes := s.toList.map fun c => .ofNat c.toNat

def genesisDigest : String := "9cd9da92046a4de28d7cec92f9559e542ba6a52af9fe44513bd26b0c2838a4d4"

def firstLine : Bytes := bytesOf ("\x7b\"event_id\":\"1\",\"prev_hash\":\"" ++ genesisDigest ++ "\"\x7d")

def firstDigest : String := "7aa9fefdbded956999b02943a2d779dd00a5493d66b9e0171c84cb53785c43f1"

def secondLine : Bytes := bytesOf ("\x7b\"event_id\":\"2\",\"prev_hash\":\"" ++ firstDigest ++ "\"\x7d")

def secondDigest : String := "b36732efbe2bbdd5c64487d65c084da841fe1deb910c70df86bbaf1170ebcfc9"

/-- An interpreter, with the digests of the texts above. -/
def cpython : Python where
  maxDepth := 1000
  float s := ⟨(decode? s).getD ""⟩
  sha256 b :=
    if b = genesisBytes then Lib.py genesisDigest
    else if b = firstLine then Lib.py firstDigest
    else if b = secondLine then Lib.py secondDigest
    else []

/-- A valid file, and the same file with a CR at the end of its first line. -/
def plainFile : LogFile := ⟨"drnt-audit-2026-01-01.jsonl", firstLine ++ newline :: secondLine⟩

def returnedFile : LogFile :=
  ⟨"drnt-audit-2026-01-02.jsonl", firstLine ++ carriageReturn :: newline :: secondLine⟩

theorem valid_file_unique_witness :
    (readFileRecords cpython plainFile 0).length = 2 ∧
      List.Forall₂ (fun r s => SameLine r.raw s.raw) (readFileRecords cpython plainFile 0)
        (readFileRecords cpython returnedFile 0) := by
  have valid : (classify cpython (readFileRecords cpython plainFile 0) []).status = .valid := by
    decide +kernel
  have valid' : (classify cpython (readFileRecords cpython returnedFile 0) []).status = .valid := by
    decide +kernel
  have last : (readFileRecords cpython plainFile 0).getLast?.map (·.raw) =
      (readFileRecords cpython returnedFile 0).getLast?.map (·.raw) := by decide +kernel
  have free : CollisionFree cpython (hashedTexts
      (readFileRecords cpython plainFile 0 ++ readFileRecords cpython returnedFile 0)) := by
    unfold CollisionFree
    decide +kernel
  exact ⟨by decide +kernel, (valid_file_unique valid valid' last free).2⟩

end Evidence

end Drnt.Audit
