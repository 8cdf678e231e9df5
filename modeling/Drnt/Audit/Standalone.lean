import Drnt.Audit.Runs

/-! The standalone script that verifies log files, against the orchestrator's verifier. -/
namespace Drnt.Audit.Standalone

open Lib
open Loads (Clean)

section Program

variable (py : Python)

/-- One line, with prev_hash, which is None after a malformed line, and all_valid. -/
def verifyLine (prev : Option PyStr) (allValid : Bool) (line : PyStr) :
    Except Raised (Option PyStr × Bool) :=
  if line = [] then .ok (prev, allValid)
  else match Loads.loads py line with
    | .error .decode => .ok (none, false)
    | .error .value => .error .value
    | .error .recursion => .error .recursion
    | .ok (.obj fields) =>
      let eventPrevHash := (Json.field? (Lib.py "prev_hash") fields).getD (.str [])
      match prev with
      | none => .ok (some (computeHash py line), allValid)
      | some hash =>
        .ok (some (computeHash py line), if eventPrevHash ≠ .str hash then false else allValid)
    | .ok _ => .error .attribute

def verifyLines (prev : Option PyStr) (allValid : Bool) :
    List PyStr → Except Raised (Option PyStr × Bool)
  | [] => .ok (prev, allValid)
  | line :: rest =>
    match verifyLine py prev allValid line with
    | .error fault => .error fault
    | .ok (prev, allValid) => verifyLines prev allValid rest

def verifyFrom (prev : Option PyStr) (allValid : Bool) : List LogFile → Except Raised Bool
  | [] => .ok allValid
  | f :: rest =>
    match TextMode.read f.data with
    | none => .error .unicodeDecode
    | some lines =>
      match verifyLines py prev allValid lines with
      | .error fault => .error fault
      | .ok (prev, allValid) => verifyFrom prev allValid rest

def verifyFiles (files : List LogFile) : Except Raised Bool :=
  if files = [] then .ok true else verifyFrom py (some (genesisHash py)) true files

end Program

section Lines

variable {py : Python} {prev : Option PyStr} {hash : PyStr} {line : PyStr} {lines : List PyStr}

/-- The lines that are not skipped. -/
def nonempty (lines : List PyStr) : List PyStr := lines.filter fun line => decide (line ≠ [])

/-- A chain of lines, from a hash. -/
abbrev LinesChained (py : Python) (hash : PyStr) (lines : List PyStr) : Prop :=
  HashChain.Linked (linePrev? py) (computeHash py) hash lines

theorem HexDigests.nonempty (digests : HexDigests py) (b : Bytes) : py.sha256 b ≠ [] := by
  intro empty
  have length := (digests b).1
  rw [empty] at length
  cases length

/-- The field of an event is compared as its prev_hash, absent or not. -/
theorem field_eq {fields : List (PyStr × Json)} (some_ : hash ≠ [])
    (read : Loads.loads py line = .ok (.obj fields)) :
    (Json.field? (Lib.py "prev_hash") fields).getD (.str []) = .str hash ↔
      linePrev? py line = some hash := by
  unfold linePrev?
  rw [read]
  dsimp only
  rw [text?_eq]
  cases Json.field? (Lib.py "prev_hash") fields with
  | none => simp [some_.symm]
  | some v => simp

/-- What one line does to a chain that is whole so far. -/
theorem verifyLine_whole (some_ : hash ≠ []) :
    (line = [] ∧ verifyLine py (some hash) true line = .ok (some hash, true)) ∨
    (line ≠ [] ∧ linePrev? py line = some hash ∧
      verifyLine py (some hash) true line = .ok (some (computeHash py line), true)) ∨
    (line ≠ [] ∧ linePrev? py line ≠ some hash ∧
      ∀ prev, verifyLine py (some hash) true line ≠ .ok (prev, true)) := by
  by_cases empty : line = []
  · exact .inl ⟨empty, if_pos empty⟩
  right
  unfold verifyLine
  rw [if_neg empty]
  cases read : Loads.loads py line with
  | error fault =>
    refine .inr ⟨empty, ?_, ?_⟩
    · unfold linePrev?
      rw [read]
      simp
    · cases fault <;> simp
  | ok v =>
    cases v with
    | obj fields =>
      dsimp only
      have same := field_eq some_ read
      by_cases link : linePrev? py line = some hash
      · rw [if_neg (not_not.mpr (same.mpr link))]
        exact .inl ⟨empty, link, rfl⟩
      · rw [if_pos fun eq => link (same.mp eq)]
        exact .inr ⟨empty, link, by simp⟩
    | _ =>
      refine .inr ⟨empty, ?_, by simp⟩
      unfold linePrev?
      rw [read]
      simp

/-- A chain that is found broken stays so. -/
theorem verifyLine_broken {after : Option PyStr} {allValid : Bool}
    (h : verifyLine py prev false line = .ok (after, allValid)) : allValid = false := by
  unfold verifyLine at h
  split at h
  · cases h
    rfl
  split at h
  · cases h
    rfl
  · cases h
  · cases h
  · dsimp only at h
    split at h
    · cases h
      rfl
    · simp only [ite_self] at h
      cases h
      rfl
  · cases h

theorem verifyLines_broken {after : Option PyStr} {allValid : Bool}
    (h : verifyLines py prev false lines = .ok (after, allValid)) : allValid = false := by
  induction lines generalizing prev with
  | nil =>
    cases h
    rfl
  | cons line rest ih =>
    unfold verifyLines at h
    split at h
    · cases h
    · rename_i next valid eq
      rw [verifyLine_broken eq] at h
      exact ih h

theorem verifyFrom_broken {files : List LogFile} : verifyFrom py prev false files ≠ .ok true := by
  induction files generalizing prev with
  | nil => simp [verifyFrom]
  | cons f rest ih =>
    unfold verifyFrom
    split
    · simp
    · split
      · simp
      · rename_i next valid eq
        rw [verifyLines_broken eq]
        exact ih

/-- A loop over lines ends with a whole chain, at its tip, or without one. -/
theorem verifyLines_whole (digests : HexDigests py) (some_ : hash ≠ []) :
    (LinesChained py hash (nonempty lines) ∧ verifyLines py (some hash) true lines =
      .ok (some (HashChain.tip (computeHash py) hash (nonempty lines)), true)) ∨
    (¬ LinesChained py hash (nonempty lines) ∧
      ∀ prev, verifyLines py (some hash) true lines ≠ .ok (prev, true)) := by
  induction lines generalizing hash with
  | nil => exact .inl ⟨trivial, rfl⟩
  | cons line rest ih =>
    obtain ⟨empty, eq⟩ | ⟨full, link, eq⟩ | ⟨full, broken, never⟩ :=
      @verifyLine_whole py hash line some_
    · have skip : nonempty (line :: rest) = nonempty rest :=
        List.filter_cons_of_neg (by simp [empty])
      rw [verifyLines, eq, skip]
      exact ih some_
    · have keep : nonempty (line :: rest) = line :: nonempty rest :=
        List.filter_cons_of_pos (by simp [full])
      rw [verifyLines, eq, keep]
      have next : computeHash py line ≠ [] := HexDigests.nonempty digests _
      obtain ⟨chain, eq'⟩ | ⟨broken, never⟩ := ih next
      · exact .inl ⟨⟨link, chain⟩, eq'⟩
      · refine .inr ⟨?_, never⟩
        intro chain
        exact broken chain.2
    · have keep : nonempty (line :: rest) = line :: nonempty rest :=
        List.filter_cons_of_pos (by simp [full])
      rw [verifyLines, keep]
      refine .inr ⟨?_, ?_⟩
      · intro chain
        exact broken chain.1
      · intro prev
        cases eq : verifyLine py (some hash) true line with
        | error fault => simp
        | ok after =>
          obtain ⟨next, valid⟩ := after
          cases valid with
          | true => exact absurd eq (never next)
          | false =>
            intro whole
            cases verifyLines_broken whole

/-- The lines of a file that are not skipped. -/
def fileTexts (f : LogFile) : List PyStr := nonempty ((TextMode.read f.data).getD [])

theorem tip_nonempty (digests : HexDigests py) (some_ : hash ≠ []) :
    HashChain.tip (computeHash py) hash lines ≠ [] := by
  induction lines using List.reverseRecOn with
  | nil => exact some_
  | append_singleton before line =>
    rw [HashChain.tip_concat]
    exact HexDigests.nonempty digests _

theorem verifyFrom_iff (digests : HexDigests py) (some_ : hash ≠ []) {files : List LogFile} :
    verifyFrom py (some hash) true files = .ok true ↔
      (∀ f ∈ files, TextMode.read f.data ≠ none) ∧
        LinesChained py hash (files.flatMap fileTexts) := by
  induction files generalizing hash with
  | nil => simp [verifyFrom, HashChain.Linked]
  | cons f rest ih =>
    unfold verifyFrom
    rw [List.forall_mem_cons, List.flatMap_cons, LinesChained, HashChain.linked_append]
    cases read : TextMode.read f.data with
    | none => simp
    | some lines =>
      have texts : fileTexts f = nonempty lines := by
        rw [fileTexts, read]
        rfl
      rw [texts]
      dsimp only
      obtain ⟨chain, eq⟩ | ⟨broken, never⟩ := @verifyLines_whole py hash lines digests some_
      · rw [eq]
        dsimp only
        rw [ih (tip_nonempty digests some_)]
        simp [chain]
      · cases eq : verifyLines py (some hash) true lines with
        | error fault => simp [broken]
        | ok after =>
          obtain ⟨next, valid⟩ := after
          cases valid with
          | true => exact absurd eq (never next)
          | false => simp [broken, verifyFrom_broken]

/-- The script passes files that it can read and whose lines are one chain from genesis. -/
theorem verifyFiles_iff (digests : HexDigests py) {files : List LogFile} :
    verifyFiles py files = .ok true ↔ (∀ f ∈ files, TextMode.read f.data ≠ none) ∧
      LinesChained py (genesisHash py) (files.flatMap fileTexts) := by
  unfold verifyFiles
  split
  · rename_i none_
    simp [none_, HashChain.Linked]
  · exact verifyFrom_iff digests (HexDigests.nonempty digests _)

end Lines

section Records

variable {py : Python} {d : Disk}

/-- No line is whitespace alone, but for empty ones. -/
def NoSpaces (d : Disk) : Prop :=
  ∀ f ∈ d.logs, ∀ lines, TextMode.read f.data = some lines → ∀ line ∈ lines,
    TextMode.isBlank line = true → line = []

/-- The first record of a file names the record before it, which is of another file. -/
def Continuous (py : Python) (records : List Record) : Prop :=
  records.IsChain fun before r => before.file ≠ r.file → r.prevHash? = some (chainHash py before)

/-- The records are one chain. -/
abbrev OneChain (py : Python) (records : List Record) : Prop :=
  HashChain.Linked Record.prevHash? (chainHash py) (genesisHash py) records

theorem blank_unlinked {line : PyStr} (blank : TextMode.isBlank line = true) :
    linePrev? py line = none := by
  unfold linePrev?
  rw [loads_blank blank]

/-- In a chain of lines none is whitespace. -/
theorem not_blank_of_chained {hash : PyStr} {lines : List PyStr}
    (chain : LinesChained py hash lines) : ∀ line ∈ lines, TextMode.isBlank line = false := by
  induction lines generalizing hash with
  | nil => simp
  | cons line rest ih =>
    refine List.forall_mem_cons.mpr ⟨?_, ih chain.2⟩
    by_contra blank
    have link := chain.1
    rw [blank_unlinked (by simpa using blank)] at link
    cases link

/-- The lines that the gate reads from a file are among those of the script. -/
theorem fileLines_texts (f : LogFile) : (fileLines f.data).getD [] =
    (fileTexts f).filter fun line => !TextMode.isBlank line := by
  unfold fileLines fileTexts nonempty
  cases TextMode.read f.data with
  | none => rfl
  | some lines =>
    simp only [Option.map_some, Option.getD_some, List.filter_filter]
    refine List.filter_congr ?_
    intro line _
    by_cases empty : line = []
    · simp [empty, TextMode.isBlank]
    · simp [empty]

/-- The lines of the records that are more than whitespace. -/
theorem texts_records (returns : ∀ f ∈ d.logs, ReturnsInEnds f.data)
    (read : ∀ f ∈ d.logs, TextMode.read f.data ≠ none) :
    ((readRecords py d.logs).filter Record.textual).map (·.text?.getD []) =
      (d.logs.flatMap fileTexts).filter fun line => !TextMode.isBlank line := by
  have lines : ∀ f ∈ d.logs, fileLines f.data ≠ none := by
    intro f mem
    unfold fileLines
    simpa using read f mem
  have gate := congrArg (List.map Prod.snd) (@gateLines_files py 0 d.logs d.sorted returns lines)
  rw [gateLines, List.map_map] at gate
  have left_ : (flagged ((readRecords py d.logs).filter Record.textual)).map
      (Prod.snd ∘ gateLine) =
        ((readRecords py d.logs).filter Record.textual).map (·.text?.getD []) := by
    conv_rhs => rw [← flagged_records ((readRecords py d.logs).filter Record.textual), List.map_map]
    rfl
  rw [← left_]
  refine gate.trans ?_
  rw [List.map_flatMap, List.filter_flatMap]
  refine List.flatMap_congr ?_
  intro f _
  rw [gateFile, flagLines_snd, fileLines_texts]

theorem linked_lines {records : List Record} {hash : PyStr}
    (parsed : ∀ r ∈ records, r.parsed = parse py r.raw) (texts : ∀ r ∈ records, r.textual = true) :
    LinesChained py hash (records.map (·.text?.getD [])) ↔
      HashChain.Linked Record.prevHash? (chainHash py) hash records := by
  induction records generalizing hash with
  | nil => exact Iff.rfl
  | cons r records ih =>
    obtain ⟨parsed_, parsed⟩ := List.forall_mem_cons.mp parsed
    obtain ⟨text, texts⟩ := List.forall_mem_cons.mp texts
    obtain ⟨link, digest⟩ := line_of_record parsed_ (text?_getD text)
    rw [List.map_cons, LinesChained, HashChain.Linked, HashChain.Linked, link, digest]
    exact and_congr_right fun _ => ih parsed texts

/-- After a record: segments that continue each other are one chain. -/
theorem continuous_from (a : Record) (records : List Record) :
    ChainedFrom py (chainHash py a) ((segmentStartsFrom (some a.file) records).zip records) ∧
        Continuous py (a :: records) ↔
      HashChain.Linked Record.prevHash? (chainHash py) (chainHash py a) records := by
  induction records generalizing a with
  | nil => simp [HashChain.Chained, HashChain.Linked, Continuous]
  | cons r records ih =>
    have next := ih r
    rw [Continuous] at next ⊢
    rw [segmentStartsFrom, List.zip_cons_cons, HashChain.Linked, ← next, List.isChain_cons_cons]
    constructor
    · rintro ⟨⟨admits, chain⟩, step, continuous⟩
      refine ⟨?_, chain, continuous⟩
      rcases admits with link | ⟨starts, -⟩
      · exact link
      · apply step
        intro same
        simp [same] at starts
    · rintro ⟨link, chain, continuous⟩
      exact ⟨⟨.inl link, chain⟩, fun _ => link, continuous⟩

/-- One chain is segments that continue each other. -/
theorem continuous_iff (records : List Record) :
    Intact py records ∧ Continuous py records ↔ OneChain py records := by
  cases records with
  | nil => exact ⟨fun _ => trivial, fun _ => ⟨trivial, .nil⟩⟩
  | cons r records =>
    have rest := @continuous_from py r records
    rw [OneChain, HashChain.Linked, ← rest, Intact, flagged, segmentStarts, segmentStartsFrom,
      List.zip_cons_cons]
    constructor
    · rintro ⟨⟨admits, chain⟩, continuous⟩
      refine ⟨?_, chain, continuous⟩
      rcases admits with link | ⟨-, link⟩
      · exact link
      · exact link
    · rintro ⟨link, chain, continuous⟩
      exact ⟨⟨.inl link, chain⟩, continuous⟩

/-- A line of a file is whitespace or a record. -/
theorem record_of_line {n : Nat} {files : List LogFile} {f : LogFile} (mem : f ∈ files) {l : Line}
    (line : l ∈ splitLines f.data) :
    isBlank l.raw = true ∨ ∃ r ∈ readRecordsFrom py n files, r.raw = l.raw := by
  have here {start idx : Nat} {ls : List Line} (line : l ∈ ls) :
      isBlank l.raw = true ∨ ∃ r ∈ readLines py f.name start idx ls, r.raw = l.raw := by
    induction ls generalizing start idx with
    | nil => cases line
    | cons x ls ih =>
      rw [readLines]
      rcases List.mem_cons.mp line with same | line
      · rw [same]
        split
        · rename_i blank
          exact .inl blank
        · exact .inr ⟨_, List.mem_cons_self .., rfl⟩
      · split
        · exact ih line
        · obtain blank | ⟨r, mem, raw⟩ := ih line
          · exact .inl blank
          · exact .inr ⟨r, List.mem_cons_of_mem _ mem, raw⟩
  induction files generalizing n with
  | nil => cases mem
  | cons g files ih =>
    rw [readRecordsFrom]
    rcases List.mem_cons.mp mem with same | mem
    · subst same
      obtain blank | ⟨r, mem, raw⟩ := here line
      · exact .inl blank
      · exact .inr ⟨r, List.mem_append_left _ mem, raw⟩
    · obtain blank | ⟨r, mem, raw⟩ := ih mem
      · exact .inl blank
      · exact .inr ⟨r, List.mem_append_right _ mem, raw⟩

/-- Bytes whose lines are UTF-8 are. -/
theorem decode_lines {data : Bytes} (lines : ∀ l ∈ splitLines data, Utf8.decode l.raw ≠ none) :
    Utf8.decode data ≠ none := by
  generalize split : splitLines data = ls at lines
  induction ls generalizing data with
  | nil =>
    have empty : data = [] := by rw [← bytes_splitLines data, split]; rfl
    simp [empty, Utf8.decode]
  | cons l ls ih =>
    obtain ⟨first, rest⟩ := List.forall_mem_cons.mp lines
    obtain ⟨-, last, tail⟩ := splitLines_uncons split
    have whole : data = l.bytes ++ ls.flatMap Line.bytes := by
      rw [← bytes_splitLines data, split, List.flatMap_cons]
    obtain ⟨s, hs⟩ := Option.ne_none_iff_exists'.mp first
    cases ended : l.ended with
    | true =>
      obtain ⟨t, ht⟩ := Option.ne_none_iff_exists'.mp (ih tail rest)
      rw [whole, Line.bytes, if_pos ended, List.append_assoc, List.singleton_append,
        Utf8.decode_append (by decide), hs, ht]
      simp
    | false =>
      rw [whole, Line.bytes, (last ended).1, if_neg (by simp [ended])]
      simp [hs]

/-- The script can read the files when every record is an object. -/
theorem readable_of_parsed (parsed : ∀ r ∈ readRecords py d.logs, r.parsed ≠ none) :
    ∀ f ∈ d.logs, TextMode.read f.data ≠ none := by
  intro f mem
  have decoded : Utf8.decode f.data ≠ none := by
    apply decode_lines
    intro l line
    obtain blank | ⟨r, record, raw⟩ := @record_of_line py 0 d.logs f mem l line
    · rw [Utf8.decode_ascii]
      · simp
      · intro x inside
        have ascii := List.all_eq_true.mp blank x inside
        have range : x.toNat = 0x20 ∨ 0x09 ≤ x.toNat ∧ x.toNat ≤ 0x0D := by
          simpa [isAsciiSpace, UInt8.le_iff_toNat_le, ← UInt8.toNat_inj] using ascii
        omega
    · intro undecoded
      apply parsed r record
      rw [parsed_of_mem record, parse, raw, undecoded]
  unfold TextMode.read
  simpa using decoded

theorem record_not_blank {n : Nat} {files : List LogFile} {r : Record}
    (h : r ∈ readRecordsFrom py n files) : isBlank r.raw = false := by
  induction files generalizing n with
  | nil => cases h
  | cons f files ih =>
    rcases List.mem_append.mp h with h | h
    · obtain ⟨-, -, l, -, raw, text⟩ := mem_readLines h
      rw [raw, text]
    · exact ih h

/-- Without lines of whitespace the script and the gate read the same. -/
theorem texts_of_noSpaces (plain : NoSpaces d) {f : LogFile} (mem : f ∈ d.logs) :
    (fileTexts f).filter (fun line => !TextMode.isBlank line) = fileTexts f := by
  apply List.filter_eq_self.mpr
  intro line inside
  unfold fileTexts nonempty at inside
  obtain ⟨inside, full⟩ := List.mem_filter.mp inside
  cases read : TextMode.read f.data with
  | none => simp [read] at inside
  | some lines =>
    rw [read] at inside
    by_contra blank
    have empty := plain f mem lines read line inside (by simpa using blank)
    simp [empty] at full

/-- In files that can be read each record has a text. -/
theorem textual_of_noSpaces (plain : NoSpaces d) (returns : ∀ f ∈ d.logs, ReturnsInEnds f.data)
    (readable : ∀ f ∈ d.logs, TextMode.read f.data ≠ none) :
    ∀ r ∈ readRecords py d.logs, r.textual = true := by
  intro r mem
  obtain ⟨f, file, l, line, -, raw, -⟩ := mem_readRecords mem
  obtain ⟨lines, read⟩ := Option.ne_none_iff_exists'.mp (readable f file)
  have decoded : Utf8.decode (unreturned l.raw) ∈ lines.map some := by
    rw [← read_eq (returns f file) read]
    exact List.mem_map_of_mem line
  obtain ⟨text, inside, eq⟩ := List.mem_map.mp decoded
  have text_ : r.text? = (some text).filter fun line => !TextMode.isBlank line := by
    rw [Record.text?, raw, ← eq]
  cases blank : TextMode.isBlank text with
  | false => simp [Record.textual, text_, blank]
  | true =>
    have empty := plain f file lines read text inside blank
    have bytes := Utf8.encode_of_decode eq.symm
    have none_ : unreturned r.raw = [] := by
      rw [raw]
      simpa [empty, Utf8.encode, Utf8.encodable] using bytes.symm
    have spaces : isBlank r.raw = true := by
      rcases unreturned_cases r.raw with same | longer
      · rw [same, none_]
        rfl
      · rw [longer, none_]
        decide
    rw [record_not_blank mem] at spaces
    cases spaces

end Records

section Agreement

variable {py : Python} {d : Disk}

/-- The lines of a chain are not whitespace. -/
theorem noSpaces_of_chained {hash : PyStr}
    (chain : LinesChained py hash (d.logs.flatMap fileTexts)) : NoSpaces d := by
  intro f mem lines read line inside blank
  by_contra full
  have text : line ∈ fileTexts f := by
    unfold fileTexts nonempty
    rw [read]
    exact List.mem_filter.mpr ⟨inside, by simpa using full⟩
  have plain := not_blank_of_chained chain line (List.mem_flatMap.mpr ⟨f, mem, text⟩)
  rw [blank] at plain
  cases plain

/-- What the script reads is one chain exactly when the records are, and no line is whitespace. -/
theorem chained_iff (returns : ∀ f ∈ d.logs, ReturnsInEnds f.data) :
    (∀ f ∈ d.logs, TextMode.read f.data ≠ none) ∧
        LinesChained py (genesisHash py) (d.logs.flatMap fileTexts) ↔
      OneChain py (readRecords py d.logs) ∧ NoSpaces d := by
  have same (plain : NoSpaces d) (readable : ∀ f ∈ d.logs, TextMode.read f.data ≠ none)
      (texts : ∀ r ∈ readRecords py d.logs, r.textual = true) :
      (readRecords py d.logs).map (·.text?.getD []) = d.logs.flatMap fileTexts := by
    have lines := @texts_records py d returns readable
    rw [List.filter_eq_self.mpr texts, List.filter_flatMap] at lines
    rw [lines]
    exact List.flatMap_congr fun f mem => texts_of_noSpaces plain mem
  have parsed : ∀ r ∈ readRecords py d.logs, r.parsed = parse py r.raw :=
    fun r mem => parsed_of_mem mem
  constructor
  · rintro ⟨readable, chain⟩
    have plain := noSpaces_of_chained chain
    have texts := @textual_of_noSpaces py d plain returns readable
    refine ⟨?_, plain⟩
    rw [← same plain readable texts] at chain
    exact (linked_lines parsed texts).mp chain
  · rintro ⟨chain, plain⟩
    have objects : ∀ r ∈ readRecords py d.logs, r.parsed ≠ none :=
      fun r mem => parsed_of_linked chain mem
    have readable := readable_of_parsed objects
    have texts : ∀ r ∈ readRecords py d.logs, r.textual = true :=
      fun r mem => textual_of_parsed (parsed r mem) (objects r mem)
    refine ⟨readable, ?_⟩
    rw [← same plain readable texts]
    exact (linked_lines parsed texts).mpr chain

theorem passes_iff_intact :
    ((verifyPath py d).status = .valid ∨ (verifyPath py d).status = .empty) ↔
      Intact py (readRecords py d.logs) := by
  unfold verifyPath
  rw [classify_valid, classify_empty]
  constructor
  · rintro (⟨-, intact⟩ | empty)
    · exact intact
    · rw [empty]
      trivial
  · intro intact
    by_cases empty : readRecords py d.logs = []
    · exact .inr empty
    · exact .inl ⟨empty, intact⟩

/-- The script passes the logs that the orchestrator's verifier passes and in which, moreover, the
first record of each later file names the record before it and no line is whitespace. -/
theorem script_passes_iff (digests : HexDigests py) (returns : ∀ f ∈ d.logs, ReturnsInEnds f.data) :
    verifyFiles py d.logs = .ok true ↔
      ((verifyPath py d).status = .valid ∨ (verifyPath py d).status = .empty) ∧
        Continuous py (readRecords py d.logs) ∧ NoSpaces d := by
  rw [verifyFiles_iff digests, chained_iff returns, passes_iff_intact, ← continuous_iff, and_assoc]

/-- A file with a line of spaces. -/
def blankDisk : Disk where
  logs := [⟨"drnt-audit-2026-01-01.jsonl", bytesOf "  \n"⟩]
  sorted := by decide +kernel
  quarantine := ∅

/-- The orchestrator's verifier skips a line of spaces, which the script takes for a break. -/
theorem script_passes_iff_blank : (verifyPath sampleHost.toPython blankDisk).status = .empty ∧
    verifyFiles sampleHost.toPython blankDisk.logs ≠ .ok true := by
  have returns : ∀ f ∈ blankDisk.logs, ReturnsInEnds f.data := by
    intro f mem a b eq
    have free : ∀ f ∈ blankDisk.logs, carriageReturn ∉ f.data := by decide +kernel
    exact absurd (eq ▸ by simp) (free f mem)
  refine ⟨by decide +kernel, ?_⟩
  intro passed
  obtain ⟨-, -, plain⟩ := (script_passes_iff sample_digests returns).mp passed
  have read : TextMode.read (bytesOf "  \n") = some [Lib.py "  "] := by decide +kernel
  have blank := plain _ (List.mem_singleton_self _) _ read _ (List.mem_singleton_self _) (by decide)
  revert blank
  decide

end Agreement

section Runs

variable {host : Host} {s : System}

/-- No line that the writer writes is whitespace. -/
theorem noSpaces_pages {pages : List Page} {d : Disk} (holds : d.Holds pages)
    (kept : Kept host.toPython pages) : NoSpaces d := by
  intro f mem lines read line inside blank
  rw [holds] at mem
  obtain ⟨p, page, rfl⟩ := List.mem_map.mp mem
  have texts : TextMode.read p.file.data = some p.texts :=
    read_encoded fun t line => (kept.sound p page t line).clean
  rw [texts] at read
  cases read
  have plain := (kept.sound p page line inside).not_blank
  rw [blank] at plain
  cases plain

/-- In every run of the writer the orchestrator's verifier passes the log, and the script does so
exactly when each daily file continues the one before it. -/
theorem run_passes_iff (digests : HexDigests host.toPython) (run : Reached host s) :
    ((verifyPath host.toPython s.disk).status = .valid ∨
      (verifyPath host.toPython s.disk).status = .empty) ∧
    (verifyFiles host.toPython s.disk.logs = .ok true ↔
      Continuous host.toPython (readRecords host.toPython s.disk.logs)) := by
  obtain ⟨pages, log⟩ := logged_reached digests run
  have returns : ∀ f ∈ s.disk.logs, ReturnsInEnds f.data := by
    intro f mem
    rw [log.holds] at mem
    obtain ⟨p, page, rfl⟩ := List.mem_map.mp mem
    exact returns_file log.kept page
  have passes := (writer_agrees digests run).1
  have plain := noSpaces_pages log.holds log.kept
  refine ⟨passes, ?_⟩
  rw [script_passes_iff digests returns]
  simp [passes, plain]

def sampleDay (n : Fin 28) : Day := (sampleTime n).date

/-- The writer with one event, before it is stopped. -/
def oneEvent : Service :=
  accepted sampleHost
    ⟨emptyDisk, started sampleHost.toPython [] (sampleDay 0) (sampleDay 0) (sampleDay 0)⟩
    (sampleEvent 1 0) (sampleTime 0) (sampleId 2)

/-- The writer when it starts again after days without an event. -/
def freshWriter : Writer := ⟨Lib.py genesisDigest, 0, [], (sampleDay 4).text, []⟩

def twoEvents : Service :=
  accepted sampleHost ⟨oneEvent.disk, freshWriter⟩ (sampleEvent 3 4) (sampleTime 4) (sampleId 4)

theorem flush_empty {s : Service} (empty : s.writer.beBuffer = []) :
    flushBestEffort s = .ok () s := by
  obtain ⟨disk, prevHash, sequence, seen, date, buffer⟩ := s
  cases empty
  rfl

/-- The link of a record that holds a line of the writer. -/
theorem link_of_line {py : Python} {r : Record} {line : PyStr} (sound : Sound py line)
    (raw : r.raw = encoded line) (parsed : r.parsed = parse py r.raw) :
    r.prevHash? = linePrev? py line := by
  have free : carriageReturn ∉ encoded line := encoded_free sound.clean (by decide)
  have text : r.text? = some line := by
    rw [Record.text?, raw, unreturned_eq free, Utf8.decode_of_encode (encode_clean sound.clean)]
    simp [sound.not_blank]
  exact (line_of_record parsed text).1.symm

/-- No line has the hash that stands for genesis. -/
theorem sample_apart {r : Record} (parsed : r.parsed = parse sampleHost.toPython r.raw)
    (some_ : r.parsed ≠ none) : chainHash sampleHost.toPython r ≠ Lib.py genesisDigest := by
  intro same
  have genesis : unreturned r.raw = genesisBytes := by
    by_contra other
    revert same
    show ¬ Lib.py (sampleSha (unreturned r.raw)) = Lib.py genesisDigest
    unfold sampleSha
    rw [if_neg other]
    split_ifs
    all_goals decide +kernel
  rw [parsed, ← parse_unreturned, genesis, genesis_unparsed] at some_
  exact some_ rfl

/-- A run of a writer that is stopped for days between two events. -/
theorem stopped_run : ∃ s, Reached sampleHost s ∧ s.writer = none ∧
    s.acked.map Acked.line = [sampleLine 1 0 genesisDigest, sampleLine 3 4 genesisDigest] := by
  have empty : emptyDisk.Holds [] := rfl
  have first : Reached sampleHost
      ⟨emptyDisk, some (started sampleHost.toPython [] (sampleDay 0) (sampleDay 0) (sampleDay 0)),
        sampleDay 0, []⟩ :=
    (Reached.first (sampleDay 0)).next (.start rfl ⟨day_le_refl _, day_le_refl _, day_le_refl _⟩
      (initialize_pages empty ⟨.nil, by simp, by simp⟩ ..))
  have one : Reached sampleHost (running oneEvent (sampleDay 0) _) :=
    first.accept sample_digests rfl (sample_inbound 1 0) sample_valid (by decide) (day_le_refl _)
      (sampleId 2)
  have off : Reached sampleHost ⟨oneEvent.disk, none, sampleDay 0, _⟩ :=
    one.next (.stop rfl (flush_empty (by decide +kernel)))
  have made : initialize_ sampleHost oneEvent.disk (sampleDay 4) (sampleDay 4) (sampleDay 4) =
      .ok freshWriter := by decide +kernel
  have order : sampleDay 0 ≤ sampleDay 4 := by decide +kernel
  have later : Reached sampleHost ⟨oneEvent.disk, some freshWriter, sampleDay 4, _⟩ :=
    off.next (.start rfl ⟨order, day_le_refl _, day_le_refl _⟩ made)
  have valid : validateEvent sampleHost (sampleEvent 3 4) = .ok none := by decide +kernel
  have two : Reached sampleHost (running twoEvents (sampleDay 4) _) :=
    later.accept sample_digests rfl (sample_inbound 3 4) valid (by decide +kernel) (day_le_refl _)
      (sampleId 4)
  have done : Reached sampleHost ⟨twoEvents.disk, none, sampleDay 4, _⟩ :=
    two.next (.stop rfl (flush_empty (by decide +kernel)))
  refine ⟨_, done, rfl, ?_⟩
  show [lineOf _ _ _ _, lineOf _ _ _ _] = _
  rw [started_nil]
  rfl

theorem sample_sound (n : Fin 16) (day : Fin 28)
    (valid : validateEvent sampleHost (sampleEvent n day) = .ok none) :
    Sound sampleHost.toPython (sampleLine n day genesisDigest) ∧
      linePrev? sampleHost.toPython (sampleLine n day genesisDigest) =
        some (Lib.py genesisDigest) := by
  obtain ⟨sound, names, -⟩ := @committed_line sampleHost (sampleEvent n day) (Lib.py genesisDigest)
    (sampleId (n + 1)) (sampleTime day).isoformat (sample_inbound n day) valid encodable_py
  exact ⟨sound, names⟩

/-- The log of a writer that was stopped for days: the script does not pass it. -/
theorem run_passes_iff_stopped : ∃ s, Reached sampleHost s ∧
    (verifyPath sampleHost.toPython s.disk).status = .valid ∧
    verifyFiles sampleHost.toPython s.disk.logs ≠ .ok true := by
  obtain ⟨s, run, off, acked⟩ := stopped_run
  obtain ⟨passes, script⟩ := run_passes_iff sample_digests run
  obtain ⟨-, lines, -⟩ := writer_agrees sample_digests run
  have raw : (readRecords sampleHost.toPython s.disk.logs).map (·.raw) =
      [encoded (sampleLine 1 0 genesisDigest), encoded (sampleLine 3 4 genesisDigest)] := by
    have split : s.acked.map (fun a => encoded a.line) = (s.acked.map Acked.line).map encoded := by
      rw [List.map_map]
      rfl
    rw [lines off, split, acked]
    rfl
  obtain ⟨a, rest, records, raw, tail⟩ := List.map_eq_cons_iff.mp raw
  obtain ⟨b, rest, rfl, raw', tail⟩ := List.map_eq_cons_iff.mp tail
  refine ⟨s, run, ?_, ?_⟩
  · apply passes.resolve_right
    intro nothing
    rw [verifyPath, classify_empty, records] at nothing
    cases nothing
  · intro passed
    have chain : OneChain _ (readRecords sampleHost.toPython s.disk.logs) :=
      (continuous_iff _).mp ⟨passes_iff_intact.mp passes, script.mp passed⟩
    have parsed (r : Record) (mem : r ∈ a :: b :: rest) :
        r.parsed = parse sampleHost.toPython r.raw ∧ r.parsed ≠ none := by
      rw [← records] at mem
      exact ⟨parsed_of_mem mem, parsed_of_linked chain mem⟩
    have valid : validateEvent sampleHost (sampleEvent 3 4) = .ok none := by decide +kernel
    obtain ⟨sound, prev⟩ := sample_sound 3 4 valid
    have link := link_of_line sound raw' (parsed b (by simp)).1
    rw [records] at chain
    have named := chain.2.1
    rw [link, prev] at named
    have apart := sample_apart (parsed a (by simp)).1 (parsed a (by simp)).2
    exact apart (Option.some.inj named).symm

end Runs

end Drnt.Audit.Standalone
