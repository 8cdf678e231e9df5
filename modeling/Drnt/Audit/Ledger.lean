import Drnt.Audit.Writer
import Drnt.Audit.StartupGate
import Drnt.Lib.RoundTrip

/-! The log as pages: for each day its lines. Writing a line to the files adds it to its page. -/
namespace Drnt.Audit

open Lib
open Loads (Clean clean_iff encodable_of_clean isClean loads loads_dumps clean_dumps Fits)

structure Page where
  day : Day
  texts : List PyStr
  deriving DecidableEq, Repr

def encoded (t : PyStr) : Bytes := t.flatMap fun c => Utf8.encodeChar c.val

def Page.name (p : Page) : String := getFilePath p.day.text

def Page.file (p : Page) : LogFile := ⟨p.name, p.texts.flatMap fun t => encoded t ++ [newline]⟩

/-- A line at the end of the ledger, on the last page or a new one. -/
def addLine (day : Day) (t : PyStr) : List Page → List Page
  | [] => [⟨day, [t]⟩]
  | [p] => if p.day = day then [⟨day, p.texts ++ [t]⟩] else [p, ⟨day, [t]⟩]
  | p :: q :: rest => p :: addLine day t (q :: rest)

section Names

theorem lt_append {a b : List Char} (h : a < b) (length : a.length = b.length) (x y : List Char) :
    a ++ x < b ++ y := by
  induction a generalizing b with
  | nil =>
    cases b with
    | nil => exact absurd h (lt_irrefl _)
    | cons c b => cases length
  | cons c a ih =>
    cases b with
    | nil => cases length
    | cons d b =>
      rw [List.cons_lt_cons_iff] at h
      rw [List.cons_append, List.cons_append, List.cons_lt_cons_iff]
      exact h.imp_right fun ⟨same, less⟩ => ⟨same, ih less (by simpa using length)⟩

/-- Files are in the order of their days. -/
theorem getFilePath_lt {d e : Day} (h : d < e) : getFilePath d.text < getFilePath e.text := by
  have less := Day.text_lt h
  rw [String.lt_iff_toList_lt] at less ⊢
  simp only [getFilePath, String.toList_append, List.append_assoc]
  apply List.append_left_lt
  apply lt_append less
  rw [Day.text, Day.text, String.toList_ofList, String.toList_ofList, Day.length_chars,
    Day.length_chars]

theorem getFilePath_injective {d e : Day} (h : getFilePath d.text = getFilePath e.text) : d = e := by
  rcases Nat.lt_trichotomy d.key e.key with less | same | more
  · exact absurd h (getFilePath_lt less).ne
  · exact Day.key_injective same
  · exact absurd h.symm (getFilePath_lt more).ne

end Names

section Adding

variable {ledger : List Page} {day : Day} {t : PyStr}

/-- The two ways in which a line is added. -/
theorem addLine_cases (ledger : List Page) (day : Day) (t : PyStr) :
    (∃ before texts, ledger = before ++ [⟨day, texts⟩] ∧
      addLine day t ledger = before ++ [⟨day, texts ++ [t]⟩]) ∨
    ((∀ p, ledger.getLast? = some p → p.day ≠ day) ∧ addLine day t ledger = ledger ++ [⟨day, [t]⟩]) := by
  induction ledger with
  | nil => exact .inr ⟨nofun, rfl⟩
  | cons p rest ih =>
    cases rest with
    | nil =>
      by_cases same : p.day = day
      · obtain ⟨d, texts⟩ := p
        cases same
        exact .inl ⟨[], texts, rfl, by simp [addLine]⟩
      · refine .inr ⟨?_, by simp [addLine, same]⟩
        rintro q last
        cases last
        exact same
    | cons q rest =>
      rcases ih with ⟨before, texts, eq, added⟩ | ⟨fresh, added⟩
      · exact .inl ⟨p :: before, texts, by rw [eq]; rfl, by rw [addLine, added]; rfl⟩
      · refine .inr ⟨?_, by rw [addLine, added]; rfl⟩
        intro r last
        exact fresh r (by simpa using last)

theorem addLine_texts (ledger : List Page) (day : Day) (t : PyStr) :
    (addLine day t ledger).flatMap Page.texts = ledger.flatMap Page.texts ++ [t] := by
  rcases addLine_cases ledger day t with ⟨before, texts, rfl, added⟩ | ⟨-, added⟩
  · rw [added]
    simp
  · rw [added]
    simp

end Adding

section Files

/-- A line that is written to a file. -/
def Disk.write (d : Disk) (name : String) (data : Bytes) : Disk := (d.openFile name).append name data

theorem appended_other {files : List LogFile} {name : String} (other : ∀ f ∈ files, f.name ≠ name)
    (data : Bytes) : files.map (Disk.appended name data) = files := by
  have same : ∀ f ∈ files, Disk.appended name data f = f := fun f mem => if_neg (other f mem)
  rw [List.map_congr_left same, List.map_id']

theorem Disk.write_exists {d : Disk} {before : List LogFile} {f : LogFile}
    (logs : d.logs = before ++ [f]) (data : Bytes) :
    (d.write f.name data).logs = before ++ [{ f with data := f.data ++ data }] := by
  have sorted := d.sorted
  rw [logs, List.pairwise_append] at sorted
  have there : d.exists? f.name = true := by simp [Disk.exists?, logs]
  have other : ∀ g ∈ before, g.name ≠ f.name := fun g mem => (sorted.2.2 g mem f (by simp)).ne
  have opened : d.openFile f.name = d := if_pos there
  rw [Disk.write, opened]
  show d.logs.map (Disk.appended f.name data) = _
  rw [logs, List.map_append, appended_other other]
  simp [Disk.appended]

theorem Disk.write_new {d : Disk} {name : String} (later : ∀ f ∈ d.logs, f.name < name)
    (data : Bytes) : (d.write name data).logs = d.logs ++ [⟨name, data⟩] := by
  have absent : d.exists? name = false := by
    simpa [Disk.exists?] using fun f mem => (later f mem).ne
  have before : d.logs.filter (·.name < name) = d.logs := by
    simpa [List.filter_eq_self] using later
  have after : d.logs.filter (name < ·.name) = [] := by
    refine List.filter_eq_nil_iff.mpr fun f mem => ?_
    rw [decide_eq_true_eq]
    exact (later f mem).not_gt
  have opened : d.openFile name = d.create name := if_neg (by simp [absent])
  rw [Disk.write, opened]
  show (d.logs.filter (·.name < name) ++ ⟨name, []⟩ :: d.logs.filter (name < ·.name)).map
    (Disk.appended name data) = _
  rw [before, after, List.map_append, appended_other fun f mem => (later f mem).ne]
  simp [Disk.appended]

end Files

section Lines

variable {py : Python} {t : PyStr} {texts : List PyStr}

theorem encode_clean (h : Clean t) : Utf8.encode t = some (encoded t) :=
  if_pos (encodable_of_clean h)

theorem encoded_append (s t : PyStr) : encoded (s ++ t) = encoded s ++ encoded t :=
  List.flatMap_append ..

theorem encode_line (h : Clean t) :
    Utf8.encode (t ++ [TextMode.lineFeed]) = some (encoded t ++ [newline]) := by
  have plain : Utf8.encodable (t ++ [TextMode.lineFeed]) = true := by
    have all := encodable_of_clean h
    unfold Utf8.encodable at all ⊢
    rw [List.all_append, all]
    rfl
  have bytes : encoded (t ++ [TextMode.lineFeed]) = encoded t ++ [newline] := encoded_append ..
  rw [← bytes]
  exact if_pos plain

/-- The bytes of a line have no control characters. -/
theorem encoded_free (h : Clean t) {x : UInt8} (control : x.toNat < 0x20) : x ∉ encoded t := by
  intro mem
  obtain ⟨c, char, mem⟩ := List.mem_flatMap.mp mem
  have value := Utf8.encodeChar_ascii c.isLt mem (by omega)
  have clean := clean_iff.mp h c char
  simp only [isClean, Bool.and_eq_true, decide_eq_true_eq] at clean
  omega

theorem splitLines_encoded (clean : ∀ t ∈ texts, Clean t) :
    splitLines (texts.flatMap fun t => encoded t ++ [newline]) =
      texts.map fun t => ⟨encoded t, true⟩ := by
  induction texts with
  | nil => rfl
  | cons t texts ih =>
    have free : newline ∉ encoded t := encoded_free (clean t (List.mem_cons_self ..)) (by decide)
    rw [List.flatMap_cons, List.append_assoc, List.singleton_append, splitLines_ended free,
      ih fun t mem => clean t (List.mem_cons_of_mem _ mem), List.map_cons]

theorem decode_encoded (clean : ∀ t ∈ texts, Clean t) :
    Utf8.decode (texts.flatMap fun t => encoded t ++ [newline]) =
      some (texts.flatMap fun t => t ++ [TextMode.lineFeed]) := by
  induction texts with
  | nil => rfl
  | cons t texts ih =>
    have line := Utf8.decode_of_encode (encode_clean (clean t (List.mem_cons_self ..)))
    rw [List.flatMap_cons, List.append_assoc, List.singleton_append,
      Utf8.decode_append (by decide), line,
      ih fun t mem => clean t (List.mem_cons_of_mem _ mem)]
    simp [TextMode.lineFeed, newline]

theorem plain_of_clean (h : Clean t) :
    ∀ c ∈ t, c ≠ TextMode.lineFeed ∧ c ≠ TextMode.carriageReturn := by
  intro c mem
  have clean := clean_iff.mp h c mem
  constructor <;>
  · rintro rfl
    revert clean
    decide

/-- The lines of a file in text mode are those that were written. -/
theorem read_encoded (clean : ∀ t ∈ texts, Clean t) :
    TextMode.read (texts.flatMap fun t => encoded t ++ [newline]) = some texts := by
  unfold TextMode.read
  rw [decode_encoded clean, Option.map_some]
  congr 1
  induction texts with
  | nil => rfl
  | cons t texts ih =>
    have plain := plain_of_clean (clean t (List.mem_cons_self ..))
    rw [List.flatMap_cons, List.append_assoc, List.singleton_append,
      TextMode.universal_append plain, TextMode.universal_feed,
      TextMode.split_append fun mem => (plain _ mem).1 rfl,
      ih fun t mem => clean t (List.mem_cons_of_mem _ mem)]

end Lines

section Pages

variable (py : Python)

/-- The source_event_id of a line, where it is a text. -/
def lineId? (line : PyStr) : Option PyStr :=
  match Loads.loads py line with
  | .ok (.obj fields) => text? (Json.field? (Lib.py "source_event_id") fields)
  | _ => none

/-- A line that a writer can have written. -/
structure Sound (t : PyStr) : Prop where
  clean : Clean t
  id : ∃ id, lineId? py t = some id

/-- Pages of sound lines, in the order of their days. -/
structure Kept (pages : List Page) : Prop where
  ordered : pages.Pairwise fun p q => p.day < q.day
  filled : ∀ p ∈ pages, p.texts ≠ []
  sound : ∀ p ∈ pages, ∀ t ∈ p.texts, Sound py t

/-- The lines with their flags: the first of each page may start a segment. -/
def pageLines (pages : List Page) : List (Bool × PyStr) := pages.flatMap fun p => flagLines p.texts

def allTexts (pages : List Page) : List PyStr := pages.flatMap Page.texts

/-- The lines form a chain in segments. -/
abbrev PagesLinked (pages : List Page) : Prop :=
  HashChain.Chained (linePrev? py) (computeHash py) (genesisHash py) (genesisHash py) (pageLines pages)

/-- The hash that the next line has to name. -/
abbrev lastHash (pages : List Page) : PyStr :=
  HashChain.tip (computeHash py) (genesisHash py) (allTexts pages)

end Pages

section Kept

variable {py : Python} {pages : List Page} {day : Day} {t : PyStr}

theorem Sound.object (h : Sound py t) : ∃ fields, Loads.loads py t = .ok (.obj fields) := by
  obtain ⟨id, found⟩ := h.id
  unfold lineId? at found
  split at found
  case h_1 fields read => exact ⟨fields, read⟩
  case h_2 => cases found

theorem Sound.not_blank (h : Sound py t) : TextMode.isBlank t = false := by
  obtain ⟨fields, read⟩ := h.object
  by_contra blank
  rw [loads_blank (by simpa using blank)] at read
  cases read

theorem Sound.nonempty (h : Sound py t) : t ≠ [] := by
  rintro rfl
  cases h.not_blank

theorem flagLines_concat {texts : List PyStr} (some : texts ≠ []) (t : PyStr) :
    flagLines (texts ++ [t]) = flagLines texts ++ [(false, t)] := by
  cases texts with
  | nil => exact absurd rfl some
  | cons x texts => rw [List.cons_append, flagLines_cons, flagLines_cons, List.map_append]; rfl

theorem flagLines_snd (texts : List PyStr) : (flagLines texts).map (·.2) = texts := by
  cases texts with
  | nil => rfl
  | cons x texts => simp [flagLines_cons]

theorem pageLines_snd (pages : List Page) : (pageLines pages).map (·.2) = allTexts pages := by
  unfold pageLines allTexts
  rw [List.map_flatMap]
  exact congrArg (pages.flatMap ·) (funext fun p => flagLines_snd p.texts)

/-- A line is added at the end, on a page of its own if its day has none. -/
theorem pageLines_add (kept : Kept py pages) (day : Day) (t : PyStr) :
    ∃ b, pageLines (addLine day t pages) = pageLines pages ++ [(b, t)] ∧
      (b = false → ∃ p, pages.getLast? = some p ∧ p.day = day) := by
  rcases addLine_cases pages day t with ⟨before, texts, rfl, added⟩ | ⟨-, added⟩
  · have some : texts ≠ [] := kept.filled ⟨day, texts⟩ (by simp)
    refine ⟨false, ?_, fun _ => ⟨_, List.getLast?_concat .., rfl⟩⟩
    rw [added]
    simp [pageLines, flagLines_concat some]
  · refine ⟨true, ?_, nofun⟩
    rw [added]
    simp [pageLines, flagLines_cons]

theorem kept_concat {before : List Page} {p : Page} : Kept py (before ++ [p]) ↔
    Kept py before ∧ (∀ q ∈ before, q.day < p.day) ∧ p.texts ≠ [] ∧ ∀ t ∈ p.texts, Sound py t := by
  constructor
  · intro kept
    have ordered := List.pairwise_append.mp kept.ordered
    have inside {q : Page} (mem : q ∈ before) : q ∈ before ++ [p] := List.mem_append_left _ mem
    exact ⟨⟨ordered.1, fun q mem => kept.filled q (inside mem), fun q mem => kept.sound q (inside mem)⟩,
      fun q mem => ordered.2.2 q mem p (by simp), kept.filled p (by simp), kept.sound p (by simp)⟩
  · rintro ⟨kept, after, some, sound⟩
    constructor
    case ordered =>
      refine List.pairwise_append.mpr ⟨kept.ordered, List.pairwise_singleton .., ?_⟩
      intro q mem last eq
      cases List.mem_singleton.mp eq
      exact after q mem
    case filled =>
      intro q mem
      rcases List.mem_append.mp mem with mem | last
      · exact kept.filled q mem
      · cases List.mem_singleton.mp last
        exact some
    case sound =>
      intro q mem
      rcases List.mem_append.mp mem with mem | last
      · exact kept.sound q mem
      · cases List.mem_singleton.mp last
        exact sound

/-- Where the last page is not of the day, all pages are of earlier days. -/
theorem Kept.before (kept : Kept py pages) (behind : ∀ p ∈ pages, p.day ≤ day)
    (fresh : ∀ p, pages.getLast? = some p → p.day ≠ day) : ∀ p ∈ pages, p.day < day := by
  intro p mem
  obtain ⟨front, last, rfl⟩ := (List.eq_nil_or_concat' pages).resolve_left (List.ne_nil_of_mem mem)
  have other := fresh last (List.getLast?_concat ..)
  have less : last.day < day := (Day.lt_or_eq_of_le (behind last (by simp))).resolve_right other
  rcases List.mem_append.mp mem with mem | mem
  · exact Nat.lt_trans ((kept_concat.mp kept).2.1 p mem) less
  · cases List.mem_singleton.mp mem
    exact less

theorem Kept.add (kept : Kept py pages) (behind : ∀ p ∈ pages, p.day ≤ day) (sound : Sound py t) :
    Kept py (addLine day t pages) := by
  rcases addLine_cases pages day t with ⟨before, texts, rfl, added⟩ | ⟨fresh, added⟩
  · obtain ⟨kept, after, -, all⟩ := kept_concat.mp kept
    rw [added, kept_concat]
    refine ⟨kept, after, by simp, fun s mem => ?_⟩
    rcases List.mem_append.mp mem with mem | last
    · exact all s mem
    · cases List.mem_singleton.mp last
      exact sound
  · rw [added, kept_concat]
    refine ⟨kept, kept.before behind fresh, by simp, fun s mem => ?_⟩
    cases List.mem_singleton.mp mem
    exact sound

theorem allTexts_add (pages : List Page) (day : Day) (t : PyStr) :
    allTexts (addLine day t pages) = allTexts pages ++ [t] := addLine_texts ..

theorem lastHash_add (pages : List Page) (day : Day) (t : PyStr) :
    lastHash py (addLine day t pages) = computeHash py t := by
  rw [lastHash, allTexts_add, HashChain.tip_concat]

/-- A line keeps the chain if it names the last hash, or genesis on a page of its own. -/
theorem linked_add (kept : Kept py pages) (linked : PagesLinked py pages)
    (names : linePrev? py t = some (lastHash py pages) ∨
      linePrev? py t = some (genesisHash py) ∧ ∀ p ∈ pages, p.day < day) :
    PagesLinked py (addLine day t pages) := by
  obtain ⟨b, eq, old⟩ := pageLines_add kept day t
  have tip : HashChain.tip (fun x => computeHash py x.2) (genesisHash py) (pageLines pages) =
      lastHash py pages := by
    rw [lastHash, ← pageLines_snd, HashChain.tip, HashChain.tip, List.foldl_map]
  rw [PagesLinked, eq, HashChain.chained_append, tip]
  refine ⟨linked, ?_, trivial⟩
  rcases names with next | ⟨anew, before⟩
  · exact .inl next
  · right
    refine ⟨?_, anew⟩
    by_contra out
    obtain ⟨p, last, same⟩ := old (by simpa using out)
    have less := before p (List.mem_of_getLast? last)
    rw [same] at less
    exact Nat.lt_irrefl _ less

end Kept

section Disks

variable {py : Python} {pages : List Page} {day : Day} {t : PyStr} {d : Disk}

/-- A disk that has the pages. -/
def Disk.Holds (d : Disk) (pages : List Page) : Prop := d.logs = pages.map Page.file

theorem file_concat (texts : List PyStr) (t : PyStr) : (⟨day, texts ++ [t]⟩ : Page).file =
    { (⟨day, texts⟩ : Page).file with
      data := (⟨day, texts⟩ : Page).file.data ++ (encoded t ++ [newline]) } := by
  simp [Page.file, Page.name]

theorem Disk.Holds.write (holds : d.Holds pages) (kept : Kept py pages)
    (behind : ∀ p ∈ pages, p.day ≤ day) :
    (d.write (getFilePath day.text) (encoded t ++ [newline])).Holds (addLine day t pages) := by
  unfold Holds at holds ⊢
  rcases addLine_cases pages day t with ⟨before, texts, rfl, added⟩ | ⟨fresh, added⟩
  · rw [List.map_append] at holds
    rw [added, List.map_append, List.map_singleton, file_concat]
    exact Disk.write_exists holds _
  · have later : ∀ f ∈ d.logs, f.name < getFilePath day.text := by
      intro f mem
      rw [holds] at mem
      obtain ⟨p, page, rfl⟩ := List.mem_map.mp mem
      exact getFilePath_lt (kept.before behind fresh p page)
    rw [added, List.map_append, Disk.write_new later, holds]
    simp [Page.file, Page.name]

theorem fileLines_file (kept : Kept py pages) {p : Page} (mem : p ∈ pages) :
    fileLines p.file.data = some p.texts := by
  have clean : ∀ t ∈ p.texts, Clean t := fun t line => (kept.sound p mem t line).clean
  unfold fileLines
  rw [Page.file, read_encoded clean, Option.map_some, List.filter_eq_self.mpr]
  intro t line
  rw [(kept.sound p mem t line).not_blank]
  rfl

theorem returns_file (kept : Kept py pages) {p : Page} (mem : p ∈ pages) :
    ReturnsInEnds p.file.data := by
  have free : carriageReturn ∉ p.file.data := by
    intro there
    obtain ⟨t, line, there⟩ := List.mem_flatMap.mp there
    rcases List.mem_append.mp there with there | there
    · exact encoded_free (kept.sound p mem t line).clean (by decide) there
    · revert there
      decide
  intro a b eq
  exact absurd (eq ▸ by simp) free

/-- The line that a record of a page stands for. -/
theorem record_of_mem (kept : Kept py pages) {r : Record}
    (mem : r ∈ readRecords py (pages.map Page.file)) :
    ∃ p ∈ pages, ∃ t ∈ p.texts, r.file = p.name ∧ r.raw = encoded t ∧ r.parsed = parse py r.raw := by
  obtain ⟨f, file, l, line, name, raw, parsed⟩ := mem_readRecords mem
  obtain ⟨p, page, rfl⟩ := List.mem_map.mp file
  rw [Page.file, splitLines_encoded fun t line => (kept.sound p page t line).clean] at line
  obtain ⟨t, text, rfl⟩ := List.mem_map.mp line
  exact ⟨p, page, t, text, name, raw, parsed⟩

theorem parse_sound (sound : Sound py t) : ∃ fields, parse py (encoded t) = some fields ∧
    Loads.loads py t = .ok (.obj fields) := by
  obtain ⟨fields, read⟩ := sound.object
  refine ⟨fields, ?_, read⟩
  unfold parse
  rw [Utf8.decode_of_encode (encode_clean sound.clean)]
  dsimp only
  rw [read]

theorem readRecords_textual (kept : Kept py pages) : ∀ r ∈ readRecords py (pages.map Page.file),
    r.parsed = parse py r.raw ∧ r.textual = true := by
  intro r mem
  obtain ⟨p, page, t, line, -, raw, parsed⟩ := record_of_mem kept mem
  obtain ⟨fields, object, -⟩ := parse_sound (kept.sound p page t line)
  refine ⟨parsed, textual_of_parsed parsed ?_⟩
  rw [parsed, raw, object]
  exact nofun

/-- The records of the files stand for the lines of the pages. -/
theorem gateLines_pages (holds : d.Holds pages) (kept : Kept py pages) :
    (flagged (readRecords py d.logs)).map gateLine = pageLines pages := by
  have sorted := d.sorted
  rw [holds] at sorted ⊢
  have all : (readRecords py (pages.map Page.file)).filter Record.textual =
      readRecords py (pages.map Page.file) :=
    List.filter_eq_self.mpr fun r mem => (readRecords_textual kept r mem).2
  have lines := @gateLines_files py 0 _ sorted
  unfold gateLines at lines
  rw [readRecords] at all ⊢
  rw [all] at lines
  rw [lines, pageLines, List.flatMap_map]
  · refine List.flatMap_congr fun p mem => ?_
    rw [gateFile, fileLines_file kept mem, Option.getD_some]
  · intro f mem
    obtain ⟨p, page, rfl⟩ := List.mem_map.mp mem
    exact returns_file kept page
  · intro f mem
    obtain ⟨p, page, rfl⟩ := List.mem_map.mp mem
    rw [fileLines_file kept page]
    simp

theorem intact_iff (holds : d.Holds pages) (kept : Kept py pages) :
    Intact py (readRecords py d.logs) ↔ PagesLinked py pages := by
  have record {x : Bool × Record} (mem : x ∈ flagged (readRecords py d.logs)) :
      x.2.parsed = parse py x.2.raw ∧ x.2.textual = true := by
    have mem : x.2 ∈ readRecords py d.logs :=
      flagged_records (readRecords py d.logs) ▸ List.mem_map_of_mem mem
    rw [holds] at mem
    exact readRecords_textual kept x.2 mem
  rw [PagesLinked, ← gateLines_pages holds kept]
  exact (chained_lines (fun x mem => (record mem).1) fun x mem => (record mem).2).symm

/-- The verifier reports a directory of pages as valid or empty when they form a chain. -/
theorem verifyPath_pages (holds : d.Holds pages) (kept : Kept py pages) :
    (verifyPath py d).status = .valid ∨ (verifyPath py d).status = .empty ↔
      PagesLinked py pages := by
  rw [verifyPath, classify_valid, classify_empty, ← intact_iff holds kept]
  constructor
  · rintro (⟨-, intact⟩ | none)
    · exact intact
    · rw [none]
      exact trivial
  · intro intact
    by_cases none : readRecords py d.logs = []
    · exact .inr none
    · exact .inl ⟨none, intact⟩

end Disks

end Drnt.Audit
