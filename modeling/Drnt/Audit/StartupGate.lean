import Drnt.Audit.Repair
import Drnt.Audit.TextLines

/-! The audit check of the startup gate, which reads the last lines of the log as text. -/
namespace Drnt.Audit

open Lib

section Program

inductive GateMessage
  | noEvents
  | single
  | verified (events : Nat)
  | malformed (event : Nat)
  | mismatch (event : Nat) (expected : PyStr) (actual : Option Json)
  deriving DecidableEq, Repr

variable (py : Python)

/-- The loop of _verify_tail_chain, after the line `prev`. -/
def verifyLines (prev : PyStr) (i : Nat) :
    List (Bool × PyStr) → Except Raised (Bool × GateMessage)
  | [] => .ok (true, .verified i)
  | (starts, line) :: rest =>
    match Loads.loads py line with
    | .error .decode => .ok (false, .malformed i)
    | .error .value => .error .value
    | .error .recursion => .error .recursion
    | .ok (.obj fields) =>
      let actual := Json.field? (Lib.py "prev_hash") fields
      if starts ∧ actual = some (.str (genesisHash py)) then verifyLines line (i + 1) rest
      else
        let expected := computeHash py prev
        if actual ≠ some (.str expected) then .ok (false, .mismatch i expected actual)
        else verifyLines line (i + 1) rest
    | .ok _ => .error .attribute

def verifyTailChain : List (Bool × PyStr) → Except Raised (Bool × GateMessage)
  | [] => .ok (true, .noEvents)
  | [_] => .ok (true, .single)
  | (_, line) :: rest => verifyLines py line 1 rest

/-- The lines of a file that are more than whitespace. -/
def fileLines (data : Bytes) : Option (List PyStr) :=
  (TextMode.read data).map fun lines => lines.filter fun line => !TextMode.isBlank line

def fileFlags (lines : List PyStr) : List Bool := (List.range lines.length).map (· == 0)

/-- The loop over the files, newest first. -/
def gather (n : Nat) : List LogFile → List (Bool × PyStr) →
    Except Raised (List (Bool × PyStr))
  | [], all => .ok all
  | f :: older, all =>
    match fileLines f.data with
    | none => .error .unicodeDecode
    | some lines =>
      let all := (fileFlags lines).zip lines ++ all
      if n ≤ all.length then .ok all else gather n older all

/-- The slice [-n:], which is the whole list when n is 0. -/
def lastOf {α : Type} (n : Nat) (xs : List α) : List α :=
  if n = 0 then xs else xs.drop (xs.length - n)

def checkHashChain (n : Nat) (files : List LogFile) : Except Raised (Bool × GateMessage) :=
  match gather n files.reverse [] with
  | .error fault => .error fault
  | .ok all => verifyTailChain py (if n < all.length then lastOf n all else all)

end Program

section Lines

variable (py : Python)

/-- A line that the gate cannot look into: JSON other than an object, and what its parser refuses
by another error than JSONDecodeError. -/
def Stuck (line : PyStr) : Prop :=
  match Loads.loads py line with
  | .error .decode | .ok (.obj _) => False
  | .error _ | .ok _ => True

/-- Each line links to the one before it, or starts a file at genesis. -/
abbrev LinesLinked (prev : PyStr) (lines : List (Bool × PyStr)) : Prop :=
  HashChain.Chained (linePrev? py) (computeHash py) (genesisHash py) (computeHash py prev) lines

abbrev LineAdmits (prev : PyStr) (x : Bool × PyStr) : Prop :=
  HashChain.Admits (linePrev? py) (genesisHash py) (computeHash py prev) x.1 x.2

variable {py} {prev : PyStr} {i : Nat} {x : Bool × PyStr} {xs : List (Bool × PyStr)}

/-- One line of the loop. -/
theorem verifyLines_cons (py : Python) (prev : PyStr) (i : Nat) (x : Bool × PyStr) (xs : List (Bool × PyStr)) :
    (LineAdmits py prev x → ¬ Stuck py x.2 ∧
      verifyLines py prev i (x :: xs) = verifyLines py x.2 (i + 1) xs) ∧
    (¬ LineAdmits py prev x → Stuck py x.2 → ∃ fault,
      verifyLines py prev i (x :: xs) = .error fault) ∧
    (¬ LineAdmits py prev x → ¬ Stuck py x.2 → ∃ message,
      verifyLines py prev i (x :: xs) = .ok (false, message)) := by
  obtain ⟨starts, line⟩ := x
  unfold LineAdmits HashChain.Admits linePrev? Stuck
  rw [verifyLines]
  cases read : Loads.loads py line with
  | error fault => cases fault <;> simp
  | ok v =>
    cases v with
    | obj fields =>
      simp only [text?_eq]
      by_cases link : Json.field? (Lib.py "prev_hash") fields = some (.str (computeHash py prev))
      · simp [link]
      · by_cases anew : starts = true ∧
          Json.field? (Lib.py "prev_hash") fields = some (.str (genesisHash py))
        · simp [anew]
        · simp only [link, anew, or_self, not_false_eq_true, if_false, ne_eq, if_true]
          simp
    | _ => simp

/-- The loop accepts exactly the lines that link. -/
theorem verifyLines_true :
    (∃ message, verifyLines py prev i xs = .ok (true, message)) ↔ LinesLinked py prev xs := by
  induction xs generalizing prev i with
  | nil => simp [verifyLines, HashChain.Chained]
  | cons x xs ih =>
    obtain ⟨admits, stuck, fails⟩ := verifyLines_cons py prev i x xs
    have cons : LinesLinked py prev (x :: xs) ↔ LineAdmits py prev x ∧ LinesLinked py x.2 xs :=
      Iff.rfl
    rw [cons]
    by_cases h : LineAdmits py prev x
    · rw [(admits h).2, ih]
      simp [h]
    · by_cases out : Stuck py x.2
      · obtain ⟨fault, eq⟩ := stuck h out
        simp [eq, h]
      · obtain ⟨message, eq⟩ := fails h out
        simp [eq, h]

/-- The loop raises at a line that it cannot look into, if the lines before it link. -/
theorem verifyLines_raises :
    (∃ fault, verifyLines py prev i xs = .error fault) ↔ ∃ before x after,
      xs = before ++ x :: after ∧ LinesLinked py prev before ∧ Stuck py x.2 := by
  induction xs generalizing prev i with
  | nil => simp [verifyLines]
  | cons x xs ih =>
    obtain ⟨admits, stuck, fails⟩ := verifyLines_cons py prev i x xs
    have split : (∃ before y after, x :: xs = before ++ y :: after ∧
        LinesLinked py prev before ∧ Stuck py y.2) ↔ Stuck py x.2 ∨ LineAdmits py prev x ∧
        ∃ before y after, xs = before ++ y :: after ∧ LinesLinked py x.2 before ∧ Stuck py y.2 := by
      constructor
      case mp =>
        rintro ⟨before, y, after, eq, linked, out⟩
        cases before with
        | nil =>
          cases eq
          exact .inl out
        | cons z before =>
          cases eq
          exact .inr ⟨linked.1, before, y, after, rfl, linked.2, out⟩
      case mpr =>
        rintro (out | ⟨first, before, y, after, rfl, linked, out⟩)
        · exact ⟨[], x, xs, rfl, trivial, out⟩
        · exact ⟨x :: before, y, after, rfl, ⟨first, linked⟩, out⟩
    rw [split]
    by_cases h : LineAdmits py prev x
    · rw [(admits h).2, ih]
      simp [h, (admits h).1]
    · by_cases out : Stuck py x.2
      · obtain ⟨fault, eq⟩ := stuck h out
        simp [eq, out]
      · obtain ⟨message, eq⟩ := fails h out
        simp [eq, out, h]

end Lines

section Records

variable {py : Python}

/-- The line of a record, if the gate has it. -/
def Record.text? (r : Record) : Option PyStr :=
  (Utf8.decode (unreturned r.raw)).filter fun line => !TextMode.isBlank line

def Record.textual (r : Record) : Bool := r.text?.isSome

def gateLine (x : Bool × Record) : Bool × PyStr := (x.1, x.2.text?.getD [])

/-- The lines of records as the gate has them, with its flags. -/
def gateLines (records : List Record) : List (Bool × PyStr) :=
  (flagged (records.filter Record.textual)).map gateLine

/-- The lines that a file has for the gate. -/
def flagLines (lines : List PyStr) : List (Bool × PyStr) := (fileFlags lines).zip lines

theorem zip_false {α : Type} (xs : List α) :
    (List.replicate xs.length false).zip xs = xs.map (false, ·) := by
  induction xs with
  | nil => rfl
  | cons x xs ih =>
    rw [List.length_cons, List.replicate_succ, List.zip_cons_cons, ih]
    rfl

theorem flagLines_cons (line : PyStr) (lines : List PyStr) :
    flagLines (line :: lines) = (true, line) :: lines.map (false, ·) := by
  have later : (List.range lines.length).map ((· == 0) ∘ Nat.succ) =
      List.replicate lines.length false := by
    rw [List.eq_replicate_iff]
    simp
  unfold flagLines fileFlags
  rw [List.length_cons, List.range_succ_eq_map, List.map_cons, List.zip_cons_cons, List.map_map,
    later, zip_false]
  rfl

/-- Records of other files before it do not change the flags. -/
theorem flagged_append {xs ys : List Record} (apart : ∀ x ∈ xs, ∀ y ∈ ys, x.file ≠ y.file) :
    flagged (xs ++ ys) = flagged xs ++ flagged ys := by
  have starts (prev : Option String) (fresh : ∀ y ∈ ys, some y.file ≠ prev) :
      segmentStartsFrom prev (xs ++ ys) = segmentStartsFrom prev xs ++ segmentStarts ys := by
    induction xs generalizing prev with
    | nil =>
      cases ys with
      | nil => rfl
      | cons y ys =>
        have fresh := fresh y (List.mem_cons_self ..)
        simp [segmentStarts, segmentStartsFrom, fresh]
    | cons x xs ih =>
      have here := apart x (List.mem_cons_self ..)
      have later := fun z mem => apart z (List.mem_cons_of_mem x mem)
      rw [List.cons_append, segmentStartsFrom, ih later _ fun y mem eq =>
        here y mem (Option.some.inj eq).symm]
      rfl
  unfold flagged
  rw [segmentStarts, starts none (by simp), List.zip_append (length_segmentStartsFrom ..)]
  rfl

/-- The flags of what comes first do not depend on what follows. -/
theorem flagged_prefix (xs ys : List Record) : ∃ rest, flagged (xs ++ ys) = flagged xs ++ rest := by
  refine ⟨(flagged (xs ++ ys)).drop xs.length, ?_⟩
  have first := flagged_take (xs ++ ys) xs.length
  rw [List.take_left'] at first
  · rw [first, List.take_append_drop]
  · rfl

theorem flagged_before {records : List Record} {before rest : List (Bool × Record)}
    (eq : flagged records = before ++ rest) : flagged (before.map (·.2)) = before := by
  have first : records.take before.length = before.map (·.2) := by
    rw [← flagged_records records, eq, List.map_append, List.take_left' (by simp)]
  rw [← first, flagged_take, eq, List.take_left' rfl]

theorem flagged_concat (xs : List Record) (y : Record) :
    ∃ b, flagged (xs ++ [y]) = flagged xs ++ [(b, y)] := by
  obtain ⟨rest, eq⟩ := flagged_prefix xs [y]
  have records := flagged_records (xs ++ [y])
  rw [eq, List.map_append, flagged_records, List.append_cancel_left_eq] at records
  obtain ⟨x, rfl, rfl⟩ := List.map_eq_singleton_iff.mp records
  exact ⟨x.1, eq⟩

theorem flagged_same {file : String} {xs : List Record} {x : Record}
    (same : ∀ y ∈ x :: xs, y.file = file) : flagged (x :: xs) = (true, x) :: xs.map (false, ·) := by
  have here : x.file = file := same x (List.mem_cons_self ..)
  have flags := segmentStartsFrom_same fun y mem => same y (List.mem_cons_of_mem x mem)
  unfold flagged segmentStarts
  rw [segmentStartsFrom, List.zip_cons_cons, here, List.eq_replicate_of_mem flags,
    length_segmentStartsFrom, zip_false]
  simp

/-- The line that a text reader has for a line of bytes, if it is more than whitespace. -/
def Line.text? (l : Line) : Option PyStr :=
  (Utf8.decode (unreturned l.raw)).filter fun line => !TextMode.isBlank line

theorem text?_blank {l : Line} (blank : isBlank l.raw = true) : l.text? = none := by
  have space (x : UInt8) (mem : x ∈ unreturned l.raw) :
      x.toNat < 0x80 ∧ TextMode.isSpace (Fin.ofNat _ x.toNat) = true := by
    have mem : x ∈ l.raw := by
      rcases unreturned_cases l.raw with same | longer
      · exact same ▸ mem
      · exact longer ▸ List.mem_append_left _ mem
    have ascii := List.all_eq_true.mp blank x mem
    have range : x.toNat = 0x20 ∨ 0x09 ≤ x.toNat ∧ x.toNat ≤ 0x0D := by
      simpa [isAsciiSpace, UInt8.le_iff_toNat_le, ← UInt8.toNat_inj] using ascii
    have value : (Fin.ofNat 0x110000 x.toNat).val = x.toNat := Nat.mod_eq_of_lt (by omega)
    refine ⟨by omega, ?_⟩
    simp only [TextMode.isSpace, value, Bool.or_eq_true, Bool.and_eq_true, decide_eq_true_eq]
    omega
  unfold Line.text?
  cases decoded : Utf8.decode (unreturned l.raw) with
  | none => rfl
  | some s =>
    have spaces : TextMode.isBlank s = true := by
      rw [Utf8.decode_ascii fun x mem => (space x mem).1, Option.some.injEq] at decoded
      subst decoded
      simpa [TextMode.isBlank] using fun x mem => (space x mem).2
    simp [spaces]

theorem readLines_texts (file : String) (start idx : Nat) (ls : List Line) :
    ((readLines py file start idx ls).filter Record.textual).map (·.text?.getD []) =
      ls.filterMap Line.text? := by
  induction ls generalizing start idx with
  | nil => rfl
  | cons l ls ih =>
    rw [readLines]
    split
    case isTrue blank => rw [ih, List.filterMap_cons_none (text?_blank blank)]
    case isFalse =>
      cases text : l.text? with
      | none =>
        have same : Record.text? ⟨idx, file, start, start + l.bytes.length, l.raw, parse py l.raw⟩ =
            none := text
        rw [List.filter_cons_of_neg (by simp [Record.textual, same]), ih,
          List.filterMap_cons_none text]
      | some s =>
        have same : Record.text? ⟨idx, file, start, start + l.bytes.length, l.raw, parse py l.raw⟩ =
            some s := text
        rw [List.filter_cons_of_pos (by rw [Record.textual, same]; rfl), List.map_cons, ih,
          List.filterMap_cons_some text, same]
        rfl

/-- The lines that the gate reads from a file are the lines of its records. -/
theorem gateLines_file {f : LogFile} {lines : List PyStr} (returns : ReturnsInEnds f.data)
    (h : fileLines f.data = some lines) (i : Nat) :
    gateLines (readFileRecords py f i) = flagLines lines := by
  obtain ⟨texts, read, rfl⟩ := Option.map_eq_some_iff.mp h
  have texts_ : ((readFileRecords py f i).filter Record.textual).map (·.text?.getD []) =
      texts.filter fun line => !TextMode.isBlank line := by
    have lines := read_eq returns read
    have each : (splitLines f.data).filterMap Line.text? =
        ((splitLines f.data).map fun l => Utf8.decode (unreturned l.raw)).filterMap
          (Option.filter fun line => !TextMode.isBlank line) := by
      rw [List.filterMap_map]
      rfl
    have guard : (Option.filter fun line => !TextMode.isBlank line) ∘ some =
        Option.guard fun line : PyStr => !TextMode.isBlank line := by
      funext line
      simp [Option.filter, Option.guard]
    rw [readFileRecords, readLines_texts, each, lines, List.filterMap_map, guard,
      List.filterMap_eq_filter]
  have same : ∀ r ∈ (readFileRecords py f i).filter Record.textual, r.file = f.name :=
    fun r mem => (mem_readLines (List.mem_of_mem_filter mem)).1
  unfold gateLines
  rw [← texts_]
  generalize (readFileRecords py f i).filter Record.textual = records at same
  cases records with
  | nil => rfl
  | cons r rest =>
    rw [flagged_same same, List.map_cons, List.map_cons, flagLines_cons]
    simp [gateLine]

theorem gateLines_append {xs ys : List Record} (apart : ∀ x ∈ xs, ∀ y ∈ ys, x.file ≠ y.file) :
    gateLines (xs ++ ys) = gateLines xs ++ gateLines ys := by
  unfold gateLines
  rw [List.filter_append, flagged_append, List.map_append]
  exact fun x hx y hy => apart x (List.mem_of_mem_filter hx) y (List.mem_of_mem_filter hy)

theorem mem_readRecords {n : Nat} {files : List LogFile} {r : Record}
    (h : r ∈ readRecordsFrom py n files) : ∃ f ∈ files, ∃ l ∈ splitLines f.data,
      r.file = f.name ∧ r.raw = l.raw ∧ r.parsed = parse py r.raw := by
  induction files generalizing n with
  | nil => cases h
  | cons f files ih =>
    rcases List.mem_append.mp h with h | h
    · obtain ⟨file, parsed, l, mem, raw, -⟩ := mem_readLines h
      exact ⟨f, List.mem_cons_self .., l, mem, file, raw, parsed⟩
    · obtain ⟨g, mem, line⟩ := ih h
      exact ⟨g, List.mem_cons_of_mem _ mem, line⟩

theorem file_of_mem {n : Nat} {files : List LogFile} {r : Record}
    (h : r ∈ readRecordsFrom py n files) : ∃ f ∈ files, r.file = f.name := by
  obtain ⟨f, mem, -, -, file, -, -⟩ := mem_readRecords h
  exact ⟨f, mem, file⟩

theorem parsed_of_mem {n : Nat} {files : List LogFile} {r : Record}
    (h : r ∈ readRecordsFrom py n files) : r.parsed = parse py r.raw := by
  obtain ⟨-, -, -, -, -, -, parsed⟩ := mem_readRecords h
  exact parsed

/-- The lines that the gate reads from a file. -/
def gateFile (f : LogFile) : List (Bool × PyStr) := flagLines ((fileLines f.data).getD [])

theorem gateLines_files {n : Nat} {files : List LogFile}
    (sorted : files.Pairwise fun f g => f.name < g.name)
    (returns : ∀ f ∈ files, ReturnsInEnds f.data) (texts : ∀ f ∈ files, fileLines f.data ≠ none) :
    gateLines (readRecordsFrom py n files) = files.flatMap gateFile := by
  induction files generalizing n with
  | nil => rfl
  | cons f files ih =>
    obtain ⟨first, sorted⟩ := List.pairwise_cons.mp sorted
    obtain ⟨lines, read⟩ := Option.ne_none_iff_exists'.mp (texts f (List.mem_cons_self ..))
    rw [readRecordsFrom, gateLines_append, gateLines_file (returns f (List.mem_cons_self ..)) read,
      ih sorted (fun g mem => returns g (List.mem_cons_of_mem _ mem))
        fun g mem => texts g (List.mem_cons_of_mem _ mem), List.flatMap_cons, gateFile, read]
    · rfl
    · intro x hx y hy
      obtain ⟨g, mem, eq⟩ := file_of_mem hy
      rw [(mem_readLines hx).1, eq]
      exact (first g mem).ne

/-- Text of whitespace is not JSON. -/
theorem loads_blank {s : PyStr} (blank : TextMode.isBlank s = true) :
    Loads.loads py s = .error .decode := by
  have stays (s : PyStr) (blank : TextMode.isBlank s = true) :
      Loads.run py Loads.start s = .ok Loads.start ∨
        Loads.run py Loads.start s = .error .decode := by
    induction s with
    | nil => exact .inl rfl
    | cons c s ih =>
      obtain ⟨space, blank⟩ : TextMode.isSpace c = true ∧ TextMode.isBlank s = true := by
        simpa [TextMode.isBlank] using blank
      have cons : Loads.run py Loads.start (c :: s) =
          (Loads.step py Loads.start c).bind fun st => Loads.run py st s := by
        simp only [Loads.run, List.foldlM_cons]
        rfl
      by_cases json : Loads.isSpace c = true
      · have same : Loads.step py Loads.start c = .ok Loads.start := by
          simp [Loads.step, Loads.start, json]
        rw [cons, same]
        exact ih blank
      · have other : Loads.step py Loads.start c = .error .decode := by
          have ne {d : Char} (plain : TextMode.isSpace (Loads.ch d) = false) : c ≠ Loads.ch d := by
            rintro rfl
            rw [plain] at space
            cases space
          have digit : Loads.isDigit c = false := by
            simp only [Loads.isDigit, Loads.digit?]
            rw [if_neg]
            · rfl
            · simp only [TextMode.isSpace, Bool.or_eq_true, Bool.and_eq_true,
                decide_eq_true_eq] at space
              omega
          simp [Loads.step, Loads.start, json, Loads.stepValue, ne (d := '"') rfl,
            ne (d := '{') rfl, ne (d := '[') rfl, ne (d := 'n') rfl, ne (d := 't') rfl,
            ne (d := 'f') rfl, ne (d := 'N') rfl, ne (d := 'I') rfl, ne (d := '-') rfl,
            ne (d := '0') rfl, digit]
        rw [cons, other]
        exact .inr rfl
  unfold Loads.loads
  rcases stays s blank with stay | out
  · rw [stay]
    rfl
  · rw [out]
    rfl

/-- A record that is an object is more than whitespace. -/
theorem textual_of_parsed {r : Record} (parsed : r.parsed = parse py r.raw) (some : r.parsed ≠ none) :
    r.textual = true := by
  rw [parsed, ← parse_unreturned] at some
  unfold Record.textual Record.text?
  unfold parse at some
  cases decoded : Utf8.decode (unreturned r.raw) with
  | none => simp [decoded] at some
  | some line =>
    cases blank : TextMode.isBlank line with
    | true =>
      rw [decoded] at some
      simp [loads_blank blank] at some
    | false => simp [blank]

/-- The gate has the links and digests of the records. -/
theorem line_of_record {r : Record} {line : PyStr} (parsed : r.parsed = parse py r.raw)
    (h : r.text? = some line) : linePrev? py line = r.prevHash? ∧
      computeHash py line = chainHash py r := by
  have decoded : Utf8.decode (unreturned r.raw) = some line := (Option.filter_eq_some_iff.mp h).1
  constructor
  case left =>
    rw [Record.prevHash?, parsed, ← parse_unreturned]
    unfold parse linePrev?
    rw [decoded]
    dsimp only
    cases Loads.loads py line with
    | error fault => rfl
    | ok v => cases v <;> rfl
  case right => rw [computeHash, Utf8.encode_of_decode decoded, chainHash]; rfl

end Records

section Window

variable {py : Python} {n : Nat} {files : List LogFile}

/-- The files that the gate comes to, those with fewer than `n` lines in newer files, are UTF-8. -/
def Readable (n : Nat) (files : List LogFile) : Prop :=
  ∀ older f newer, files = older ++ f :: newer → (newer.flatMap gateFile).length < n →
    fileLines f.data ≠ none

/-- The files that are read are the newest, enough of them to have `n` lines or all. -/
theorem gather_spec (older newer : List LogFile)
    (texts : ∀ f ∈ newer, fileLines f.data ≠ none) (short : (newer.flatMap gateFile).length < n) :
    match gather n older.reverse (newer.flatMap gateFile) with
    | .ok all => ∃ unread read, older ++ newer = unread ++ read ∧
        (∀ f ∈ read, fileLines f.data ≠ none) ∧ all = read.flatMap gateFile ∧
        (unread = [] ∨ n ≤ all.length)
    | .error _ => ¬ Readable n (older ++ newer) := by
  induction older using List.reverseRecOn generalizing newer with
  | nil => exact ⟨[], newer, rfl, texts, rfl, .inl rfl⟩
  | append_singleton older f ih =>
    rw [List.reverse_append, List.reverse_singleton, List.singleton_append, gather]
    cases read : fileLines f.data with
    | none =>
      intro readable
      exact readable older f newer (by simp) short read
    | some lines =>
      have all : (fileFlags lines).zip lines ++ newer.flatMap gateFile =
          (f :: newer).flatMap gateFile := by
        rw [List.flatMap_cons, gateFile, read]
        rfl
      have texts : ∀ g ∈ f :: newer, fileLines g.data ≠ none := by
        intro g mem
        rcases List.mem_cons.mp mem with rfl | mem
        · simp [read]
        · exact texts g mem
      dsimp only
      rw [all, List.append_assoc, List.singleton_append]
      by_cases enough : n ≤ ((f :: newer).flatMap gateFile).length
      · rw [if_pos enough]
        exact ⟨older, f :: newer, rfl, texts, rfl, .inr enough⟩
      · rw [if_neg enough]
        exact ih (f :: newer) texts (by omega)

theorem readable_of_read {unread read : List LogFile} (texts : ∀ f ∈ read, fileLines f.data ≠ none)
    (enough : unread = [] ∨ n ≤ (read.flatMap gateFile).length) : Readable n (unread ++ read) := by
  intro older f newer eq short
  rcases List.append_eq_append_iff.mp eq with ⟨x, rfl, rfl⟩ | ⟨x, rfl, rest⟩
  · exact texts f (by simp)
  · cases x with
    | nil =>
      have rest : f :: newer = read := rest
      exact texts f (rest ▸ List.mem_cons_self ..)
    | cons g x =>
      rw [List.cons_append, List.cons.injEq] at rest
      obtain ⟨rfl, rfl⟩ := rest
      rcases enough with none | enough
      · simp at none
      · rw [List.flatMap_append, List.length_append] at short
        omega

/-- The last lines of the log that the gate has. -/
def window (n : Nat) (records : List Record) : List (Bool × PyStr) :=
  (gateLines records).drop ((gateLines records).length - n)

/-- What the check does: it raises at a file that it cannot read, and else verifies the window. -/
theorem checkHashChain_eq (py : Python) (some : n ≠ 0) (sorted : files.Pairwise fun f g => f.name < g.name)
    (returns : ∀ f ∈ files, ReturnsInEnds f.data) :
    (Readable n files ∧
      checkHashChain py n files = verifyTailChain py (window n (readRecords py files))) ∨
    (¬ Readable n files ∧ ∃ fault, checkHashChain py n files = .error fault) := by
  have spec := gather_spec files [] nofun (Nat.pos_of_ne_zero some)
  rw [List.append_nil, List.flatMap_nil] at spec
  unfold checkHashChain
  cases gathered : gather n files.reverse [] with
  | error fault =>
    rw [gathered] at spec
    exact .inr ⟨spec, fault, rfl⟩
  | ok all =>
    rw [gathered] at spec
    obtain ⟨unread, read, rfl, texts, rfl, enough⟩ := spec
    refine .inl ⟨readable_of_read texts enough, ?_⟩
    obtain ⟨-, later, apart⟩ := List.pairwise_append.mp sorted
    have lines : gateLines (readRecords py (unread ++ read)) =
        gateLines (readRecords py unread) ++ read.flatMap gateFile := by
      rw [readRecords, readRecordsFrom_append, gateLines_append, gateLines_files later
        (fun f mem => returns f (List.mem_append_right _ mem)) texts]
      · rfl
      · intro x hx y hy
        obtain ⟨f, memf, eqf⟩ := file_of_mem hx
        obtain ⟨g, memg, eqg⟩ := file_of_mem hy
        rw [eqf, eqg]
        exact (apart f memf g memg).ne
    have last : (if n < (read.flatMap gateFile).length then lastOf n (read.flatMap gateFile)
        else read.flatMap gateFile) = window n (readRecords py (unread ++ read)) := by
      unfold window lastOf
      have slice (all : List (Bool × PyStr)) :
          (if n < all.length then all.drop (all.length - n) else all) =
            all.drop (all.length - n) := by
        split
        · rfl
        · rw [Nat.sub_eq_zero_of_le (by omega), List.drop_zero]
      rw [lines, if_neg some, slice]
      rcases enough with rfl | enough
      · rfl
      · rw [List.length_append, Nat.add_sub_assoc enough, List.drop_length_add_append]
    rw [← last]

/-- Each line of a window links to the one before it; the first is trusted. -/
def WindowLinked (py : Python) : List (Bool × PyStr) → Prop
  | [] => True
  | x :: xs => LinesLinked py x.2 xs

/-- The first line of a window that does not link, the first excepted, is one that the gate cannot
look into. -/
def WindowStuck (py : Python) : List (Bool × PyStr) → Prop
  | [] => False
  | x :: xs => ∃ before y after, xs = before ++ y :: after ∧ LinesLinked py x.2 before ∧
      Stuck py y.2

theorem verifyTailChain_true (py : Python) (lines : List (Bool × PyStr)) :
    (∃ message, verifyTailChain py lines = .ok (true, message)) ↔ WindowLinked py lines := by
  rcases lines with - | ⟨x, - | ⟨y, ys⟩⟩
  · exact ⟨fun _ => trivial, fun _ => ⟨_, rfl⟩⟩
  · exact ⟨fun _ => trivial, fun _ => ⟨_, rfl⟩⟩
  · exact verifyLines_true

theorem verifyTailChain_raises (py : Python) (lines : List (Bool × PyStr)) :
    (∃ fault, verifyTailChain py lines = .error fault) ↔ WindowStuck py lines := by
  rcases lines with - | ⟨x, - | ⟨y, ys⟩⟩
  · exact ⟨nofun, False.elim⟩
  · simp [verifyTailChain, WindowStuck]
  · exact verifyLines_raises

theorem text?_getD {r : Record} (h : r.textual = true) : r.text? = some (r.text?.getD []) := by
  obtain ⟨line, text⟩ := Option.isSome_iff_exists.mp h
  rw [text]
  rfl

/-- A chain of records that the gate has is a chain of its lines. -/
theorem chained_lines {prev : PyStr} {xs : List (Bool × Record)}
    (parsed : ∀ x ∈ xs, x.2.parsed = parse py x.2.raw) (texts : ∀ x ∈ xs, x.2.textual = true) :
    HashChain.Chained (linePrev? py) (computeHash py) (genesisHash py) prev
        (xs.map gateLine) ↔ ChainedFrom py prev xs :=
  HashChain.chained_map (f := fun r => r.text?.getD []) fun x mem =>
    line_of_record (parsed x mem) (text?_getD (texts x mem))

/-- An intact log passes. -/
theorem window_of_intact {records : List Record} (parsed : ∀ r ∈ records, r.parsed = parse py r.raw)
    (intact : Intact py records) : WindowLinked py (window n records) := by
  have record {x : Bool × Record} (mem : x ∈ flagged records) : x.2 ∈ records :=
    flagged_records records ▸ List.mem_map_of_mem mem
  have texts : ∀ x ∈ flagged records, x.2.textual = true := fun x mem =>
    textual_of_parsed (parsed x.2 (record mem)) (parsed_of_chained intact mem)
  have all : records.filter Record.textual = records := by
    refine List.filter_eq_self.mpr fun r mem => ?_
    rw [← flagged_records records] at mem
    obtain ⟨x, here, rfl⟩ := List.mem_map.mp mem
    exact texts x here
  have chain := (chained_lines (fun x mem => parsed x.2 (record mem)) texts).mpr intact
  have lines : gateLines records = (flagged records).map gateLine := by
    rw [gateLines, all]
  rw [← lines] at chain
  unfold window
  generalize (gateLines records).length - n = m
  rw [← List.take_append_drop m (gateLines records), HashChain.chained_append] at chain
  cases rest : (gateLines records).drop m with
  | nil => trivial
  | cons x xs =>
    rw [rest] at chain
    exact chain.2.2

/-- The gate has the same lines and flags up to a record, if it has all these records. -/
theorem gateLines_prefix {records : List Record} {before after : List (Bool × Record)}
    {x : Bool × Record} (eq : flagged records = before ++ x :: after)
    (texts : ∀ y ∈ before ++ [x], y.2.textual = true) :
    ∃ rest, gateLines records = (before ++ [x]).map gateLine ++ rest := by
  have split : records = (before ++ [x]).map (·.2) ++ after.map (·.2) := by
    rw [← flagged_records records, eq]
    simp
  obtain ⟨rest, flags⟩ := flagged_prefix ((before ++ [x]).map (·.2))
    ((after.map (·.2)).filter Record.textual)
  have start : flagged ((before ++ [x]).map (·.2)) = before ++ [x] :=
    flagged_before (eq.trans (List.append_cons ..))
  have all : ((before ++ [x]).map (·.2)).filter Record.textual = (before ++ [x]).map (·.2) := by
    refine List.filter_eq_self.mpr fun r mem => ?_
    obtain ⟨y, here, rfl⟩ := List.mem_map.mp mem
    exact texts y here
  have kept : records.filter Record.textual =
      (before ++ [x]).map (·.2) ++ (after.map (·.2)).filter Record.textual := by
    conv_lhs => rw [split, List.filter_append, all]
  exact ⟨rest.map gateLine, by rw [gateLines, kept, flags, start, List.map_append]⟩

/-- A log whose first break is in the window, behind its first line, does not pass, if the gate has
the record. -/
theorem window_of_break {records : List Record} {k : Nat} {r : Record}
    (parsed : ∀ r ∈ records, r.parsed = parse py r.raw)
    (first : firstBreak py records (segmentStarts records) = some k)
    (inside : records.length - n < k) (here : records[k]? = some r) (text : r.textual = true) :
    ¬ WindowLinked py (window n records) := by
  obtain ⟨before, x, after, eq, length, chain, breaks⟩ := firstBreakFrom_some.mp first
  rw [Nat.zero_add] at length
  have eq : flagged records = before ++ x :: after := eq
  have split : records = before.map (·.2) ++ x.2 :: after.map (·.2) := by
    rw [← flagged_records records, eq, List.map_append, List.map_cons]
  have same : x.2 = r := by
    rw [split, length, List.getElem?_append_right (by simp)] at here
    simpa using here
  have parsed : ∀ y ∈ before ++ [x], y.2.parsed = parse py y.2.raw := by
    intro y mem
    refine parsed y.2 ?_
    rw [split]
    rcases List.mem_append.mp mem with mem | mem
    · exact List.mem_append_left _ (List.mem_map_of_mem mem)
    · simp [List.mem_singleton.mp mem]
  have texts : ∀ y ∈ before ++ [x], y.2.textual = true := by
    intro y mem
    rcases List.mem_append.mp mem with early | last
    · exact textual_of_parsed (parsed y mem) (parsed_of_chained chain early)
    · rw [List.mem_singleton.mp last, same, text]
  obtain ⟨rest, lines⟩ := gateLines_prefix eq texts
  -- where the window starts, a record before the break
  have shorter : (gateLines records).length - n < before.length := by
    have fewer : (gateLines records).length ≤ records.length := by
      rw [gateLines, List.length_map, length_flagged]
      exact List.length_filter_le ..
    omega
  have shape : ∃ older z newer, before = older ++ z :: newer ∧
      older.length = (gateLines records).length - n := by
    generalize (gateLines records).length - n = m at shorter
    refine ⟨before.take m, before[m], before.drop (m + 1), ?_, ?_⟩
    · rw [← List.drop_eq_getElem_cons shorter, List.take_append_drop]
    · rw [List.length_take, min_eq_left shorter.le]
  obtain ⟨older, z, newer, rfl, start⟩ := shape
  have window_ : window n records = gateLine z :: ((newer ++ [x]).map gateLine ++ rest) := by
    rw [window, ← start, lines]
    simp
  intro linked
  rw [window_] at linked
  have linked := (HashChain.chained_append.mp linked).1
  have hash : computeHash py (gateLine z).2 = chainHash py z.2 :=
    (line_of_record (parsed z (by simp)) (text?_getD (texts z (by simp)))).2
  rw [hash, chained_lines (fun y mem => parsed y (by simp at mem ⊢; tauto))
    (fun y mem => texts y (by simp at mem ⊢; tauto))] at linked
  have last := (HashChain.chained_append.mp linked).2.1
  rw [HashChain.tip] at breaks last
  rw [List.foldl_append, List.foldl_cons] at breaks
  exact breaks last

end Window

section Agreement

variable (py : Python) (d : Disk) (n : Nat)

/-- The gate goes by the verifier: it returns, it passes what is valid or empty, and it fails a log
whose first break is in its last records, behind the first of them. -/
def GateAgrees : Prop :=
  (∃ result, checkHashChain py n d.logs = .ok result) ∧
  ((verifyPath py d).status = .valid ∨ (verifyPath py d).status = .empty →
    ∃ message, checkHashChain py n d.logs = .ok (true, message)) ∧
  ∀ k, (verifyPath py d).firstInvalidRecord = some k → (readRecords py d.logs).length - n < k →
    ∃ message, checkHashChain py n d.logs = .ok (false, message)

/-- Nothing is hidden from the gate: it can read the files that it comes to and the lines up to the
first that does not link, and where the chain breaks at a record that it skips as whitespace, a
later line does not link. -/
def NothingHidden : Prop :=
  Readable n d.logs ∧ ¬ WindowStuck py (window n (readRecords py d.logs)) ∧
  ∀ before r after, readRecords py d.logs = before ++ r :: after → Intact py before →
    (readRecords py d.logs).length - n < before.length → r.textual = false →
    ¬ WindowLinked py (window n (readRecords py d.logs))

variable {py d n}

/-- The first break, where the gate does not have the record. -/
theorem break_of_untextual {records before after : List Record} {r : Record}
    (parsed : ∀ r ∈ records, r.parsed = parse py r.raw) (split : records = before ++ r :: after)
    (intact : Intact py before) (text : r.textual = false) :
    firstBreak py records (segmentStarts records) = some before.length := by
  obtain ⟨b, flags⟩ := flagged_concat before r
  obtain ⟨rest, flags'⟩ := flagged_prefix (before ++ [r]) after
  have eq : flagged records = flagged before ++ (b, r) :: rest := by
    rw [split, List.append_cons, flags', flags, List.append_assoc]
    rfl
  have none : r.parsed = none := by
    by_contra some
    have := textual_of_parsed (parsed r (by simp [split])) some
    rw [text] at this
    cases this
  refine firstBreakFrom_some.mpr ⟨flagged before, (b, r), rest, eq, ?_, intact, ?_⟩
  · rw [length_flagged, Nat.zero_add]
  · simp [HashChain.Admits, Record.prevHash?, none]

/-- The gate goes by the verifier exactly where nothing is hidden from it. -/
theorem gate_agrees_iff (some : 1 ≤ n) (returns : ∀ f ∈ d.logs, ReturnsInEnds f.data) :
    GateAgrees py d n ↔ NothingHidden py d n := by
  have parsed : ∀ r ∈ readRecords py d.logs, r.parsed = parse py r.raw :=
    fun r mem => parsed_of_mem mem
  have first : (verifyPath py d).firstInvalidRecord =
      firstBreak py (readRecords py d.logs) (segmentStarts (readRecords py d.logs)) :=
    classify_first ..
  unfold GateAgrees NothingHidden
  rw [first]
  rcases checkHashChain_eq py (Nat.pos_iff_ne_zero.mp some) d.sorted returns with
    ⟨readable, check⟩ | ⟨unreadable, fault, check⟩
  case inr => simp [check, unreadable]
  rw [check]
  have passes := verifyTailChain_true py (window n (readRecords py d.logs))
  have raises := verifyTailChain_raises py (window n (readRecords py d.logs))
  constructor
  case mp =>
    rintro ⟨⟨result, returned⟩, -, fails⟩
    refine ⟨readable, ?_, ?_⟩
    · intro stuck
      obtain ⟨fault, raised⟩ := raises.mpr stuck
      rw [raised] at returned
      cases returned
    · intro before r after split intact inside text linked
      obtain ⟨message, passed⟩ := passes.mpr linked
      obtain ⟨message', failed⟩ :=
        fails _ (break_of_untextual parsed split intact text) inside
      rw [passed] at failed
      cases failed
  case mpr =>
    rintro ⟨-, notStuck, hidden⟩
    cases result : verifyTailChain py (window n (readRecords py d.logs)) with
    | error fault => exact absurd (raises.mp ⟨fault, result⟩) notStuck
    | ok verdict =>
      obtain ⟨passed, message⟩ := verdict
      have linked : WindowLinked py (window n (readRecords py d.logs)) ↔ passed = true := by
        rw [← passes, result]
        simp
      refine ⟨⟨_, rfl⟩, ?_, ?_⟩
      case refine_1 =>
        intro valid
        have intact : Intact py (readRecords py d.logs) := by
          rcases valid with valid | empty
          · exact (classify_valid.mp valid).2
          · rw [classify_empty.mp empty]
            trivial
        exact ⟨message, by rw [linked.mp (window_of_intact parsed intact)]⟩
      case refine_2 =>
        intro k broken inside
        have notLinked : ¬ WindowLinked py (window n (readRecords py d.logs)) := by
          obtain ⟨bound, intact⟩ := firstBreak_some broken
          cases text : (readRecords py d.logs)[k].textual with
          | true =>
            exact window_of_break parsed broken inside (List.getElem?_eq_getElem bound) text
          | false =>
            have split : readRecords py d.logs = (readRecords py d.logs).take k ++
                (readRecords py d.logs)[k] :: (readRecords py d.logs).drop (k + 1) := by
              rw [← List.drop_eq_getElem_cons bound, List.take_append_drop]
            refine hidden _ _ _ split intact ?_ text
            rw [List.length_take, min_eq_left bound.le]
            exact inside
        have failed : passed = false := by
          simpa using fun out => notLinked (linked.mpr out)
        exact ⟨message, by rw [failed]⟩

/-- A log whose second line is JSON but no object. -/
def listDisk : Disk where
  logs := [⟨"drnt-audit-2026-01-01.jsonl", firstLine ++ newline :: bytesOf "[]"⟩]
  sorted := by decide +kernel
  quarantine := ∅

theorem listDisk_raises : checkHashChain cpython 100 listDisk.logs = .error .attribute := by
  decide +kernel

theorem listDisk_returns : ∀ f ∈ listDisk.logs, ReturnsInEnds f.data := by
  intro f mem a b eq
  have free : ∀ f ∈ listDisk.logs, carriageReturn ∉ f.data := by decide +kernel
  exact absurd (eq ▸ by simp) (free f mem)

theorem gate_agrees_iff_witness : ¬ NothingHidden cpython listDisk 100 := by
  rw [← gate_agrees_iff (by decide) listDisk_returns]
  rintro ⟨⟨result, returned⟩, -⟩
  rw [listDisk_raises] at returned
  cases returned

/-- The check raises AttributeError where the verifier finds a break in the window. -/
theorem gate_raises : (∀ f ∈ listDisk.logs, ReturnsInEnds f.data) ∧
    (verifyPath cpython listDisk).firstInvalidRecord = some 1 ∧
    ¬ GateAgrees cpython listDisk 100 := by
  refine ⟨listDisk_returns, by decide +kernel, ?_⟩
  rintro ⟨⟨result, returned⟩, -⟩
  rw [listDisk_raises] at returned
  cases returned

end Agreement

end Drnt.Audit
