import Drnt.Audit.Ledger

/-! Runs of the audit log writer: events, flushes, stops, crashes and starts on any later day. What
the verifier finds on disk and what the writer holds in memory are one chain. -/
namespace Drnt.Audit

open Lib
open Loads (Clean clean_iff encodable_of_clean loads_dumps clean_dumps Fits)

section Recovery

variable {py : Python} {pages : List Page} {texts : List PyStr} {d : Disk} {day today later : Day}

/-- The source_event_ids of lines, as the writer looks them up. -/
def ids (py : Python) (texts : List PyStr) : List Json :=
  texts.filterMap fun t => (lineId? py t).map .str

/-- The chain state after more lines. -/
def ChainState.after (py : Python) (c : ChainState) (texts : List PyStr) : ChainState where
  prevHash := HashChain.tip (computeHash py) c.prevHash texts
  sequence := c.sequence + texts.length
  seenIds := (ids py texts).reverse ++ c.seenIds

theorem ChainState.after_append (c : ChainState) (s t : List PyStr) :
    (c.after py s).after py t = c.after py (s ++ t) := by
  simp [after, ids, HashChain.tip, Nat.add_assoc]

theorem ids_cons {t : PyStr} {id : PyStr} (h : lineId? py t = some id) (texts : List PyStr) :
    ids py (t :: texts) = .str id :: ids py texts := by
  simp [ids, h]

theorem mem_ids {id : PyStr} : .str id ∈ ids py texts ↔ ∃ t ∈ texts, lineId? py t = some id := by
  simp [ids]

theorem recoverLines_sound (sound : ∀ t ∈ texts, Sound py t) (c : ChainState) :
    recoverLines py c texts = .ok (c.after py texts) := by
  induction texts generalizing c with
  | nil => rfl
  | cons t texts ih =>
    have line := sound t (List.mem_cons_self ..)
    obtain ⟨fields, read⟩ := line.object
    obtain ⟨id, found⟩ := line.id
    have field : Json.field? (Lib.py "source_event_id") fields = some (.str id) := by
      unfold lineId? at found
      rw [read] at found
      exact text?_eq.mp found
    rw [recoverLines, if_neg line.nonempty, read]
    dsimp only
    have known : hashable (.str id) = true := rfl
    rw [field, Option.getD_some, if_pos known, ih fun t mem => sound t (List.mem_cons_of_mem _ mem)]
    simp [ChainState.after, ids_cons found, Nat.add_assoc, Nat.add_comm 1]

/-- The lines of a day. -/
def textsOf (pages : List Page) (day : Day) : List PyStr :=
  ((pages.find? (·.day = day)).map Page.texts).getD []

theorem read_page (holds : d.Holds pages) (day : Day) :
    d.read? (getFilePath day.text) = (pages.find? (·.day = day)).map (·.file.data) := by
  unfold Disk.read?
  rw [holds, List.find?_map, Option.map_map]
  have same : (fun f : LogFile => decide (f.name = getFilePath day.text)) ∘ Page.file =
      fun p : Page => decide (p.day = day) := by
    funext p
    refine decide_eq_decide.mpr ⟨fun eq => getFilePath_injective eq, ?_⟩
    rintro rfl
    rfl
  rw [same]
  rfl

theorem recoverFiles_pages (holds : d.Holds pages) (kept : Kept py pages) (days : List Day)
    (c : ChainState) :
    recoverFiles py d c days = .ok (c.after py (days.flatMap (textsOf pages))) := by
  induction days generalizing c with
  | nil => rfl
  | cons day days ih =>
    rw [recoverFiles, read_page holds, List.flatMap_cons, ← ChainState.after_append]
    cases found : pages.find? (·.day = day) with
    | none =>
      rw [textsOf, found]
      exact ih c
    | some p =>
      have page := List.mem_of_find?_eq_some found
      have clean : ∀ t ∈ p.texts, Clean t := fun t line => (kept.sound p page t line).clean
      have read : TextMode.read p.file.data = some p.texts := read_encoded clean
      rw [textsOf, found, Option.map_some]
      dsimp only
      rw [read]
      dsimp only
      rw [recoverLines_sound (kept.sound p page)]
      exact ih _

/-- The lines that a start reads. -/
def recent (pages : List Page) (today later : Day) : List PyStr :=
  (later.yesterday.toList ++ [today]).flatMap (textsOf pages)

theorem recoverChainState_pages (holds : d.Holds pages) (kept : Kept py pages) (today later : Day) :
    recoverChainState py d today later =
      .ok ((⟨genesisHash py, 0, []⟩ : ChainState).after py (recent pages today later)) :=
  recoverFiles_pages holds kept ..

theorem textsOf_last {before : List Page} {p : Page} (kept : Kept py (before ++ [p])) :
    textsOf (before ++ [p]) p.day = p.texts := by
  have other : before.find? (·.day = p.day) = none := by
    refine List.find?_eq_none.mpr fun q mem => ?_
    have less := (kept_concat.mp kept).2.1 q mem
    simpa using fun eq => Nat.lt_irrefl _ (eq ▸ less)
  simp [textsOf, List.find?_append, other]

theorem textsOf_later (behind : ∀ p ∈ pages, p.day < day) : textsOf pages day = [] := by
  have none : pages.find? (·.day = day) = none := by
    refine List.find?_eq_none.mpr fun p mem => ?_
    have less := behind p mem
    simpa using fun eq => Nat.lt_irrefl _ (eq ▸ less)
  rw [textsOf, none]
  rfl

/-- A start reads the last line, or there is a day without a file before it. -/
theorem recent_cases (kept : Kept py pages) (behind : ∀ p ∈ pages, p.day ≤ today)
    (order : today ≤ later) :
    HashChain.tip (computeHash py) (genesisHash py) (recent pages today later) = lastHash py pages ∨
      recent pages today later = [] ∧ ∃ gap, gap < later ∧ ∀ p ∈ pages, p.day < gap := by
  cases pages using List.reverseRecOn with
  | nil =>
    left
    have none : recent [] today later = [] := by simp [recent, textsOf]
    rw [none]
    rfl
  | append_singleton before p =>
    obtain ⟨-, after, some, -⟩ := kept_concat.mp kept
    have last {x : List PyStr} : HashChain.tip (computeHash py) (genesisHash py) (x ++ p.texts) =
        lastHash py (before ++ [p]) := by
      rw [lastHash, allTexts, List.flatMap_append, List.flatMap_singleton]
      exact HashChain.tip_append some ..
    have tail {x : Day} (less : p.day < x) : textsOf (before ++ [p]) x = [] := by
      refine textsOf_later fun q mem => ?_
      rcases List.mem_append.mp mem with mem | mem
      · exact Nat.lt_trans (after q mem) less
      · cases List.mem_singleton.mp mem
        exact less
    rcases Day.lt_or_eq_of_le (behind p (by simp)) with less | same
    · have inside : p.day < later := Nat.lt_of_lt_of_le less order
      cases day : later.yesterday with
      | none => exact absurd inside (Nat.not_lt.mpr (Day.yesterday_none day p.day))
      | some y =>
        rcases Day.lt_or_eq_of_le (Day.le_yesterday day inside) with earlier | same
        · right
          refine ⟨by simp [recent, day, tail less, tail earlier], y, Day.yesterday_lt day, ?_⟩
          intro q mem
          rcases List.mem_append.mp mem with mem | mem
          · exact Nat.lt_trans (after q mem) earlier
          · cases List.mem_singleton.mp mem
            exact earlier
        · left
          have read : recent (before ++ [p]) today later = [] ++ p.texts := by
            simp [recent, day, tail less, ← same, textsOf_last kept]
          rw [read]
          exact last
    · left
      rw [recent, ← same, List.flatMap_append, List.flatMap_singleton, textsOf_last kept]
      exact last

end Recovery

section Writing

variable {s s' : Service} {date : String} {line : PyStr}

theorem bind_ok {α β : Type} {x : Act α} {a : α} (h : x s = .ok a s') (f : α → Act β) :
    (x >>= f) s = f a s' := by
  simp [bind, EStateM.bind, h]

theorem bind_modify {β : Type} (g : Service → Service) (f : PUnit → Act β) (s : Service) :
    ((modify g : Act PUnit) >>= f) s = f ⟨⟩ (g s) := rfl

theorem bind_get {β : Type} (f : Service → Act β) (s : Service) : ((get : Act Service) >>= f) s = f s s :=
  rfl

/-- The disk when a buffer has been written to it. -/
def flushed (d : Disk) (buffer : List (String × PyStr)) : Disk :=
  buffer.foldl (fun d x => d.write (getFilePath x.1) (encoded x.2 ++ [newline])) d

theorem appendLine_run (clean : Clean line) (s : Service) : appendLine date line s =
    .ok () { s with disk := s.disk.write (getFilePath date) (encoded line ++ [newline]) } := by
  unfold appendLine
  rw [bind_modify, encode_line clean]
  rfl

theorem appendLines_run {buffer : List (String × PyStr)} (clean : ∀ x ∈ buffer, Clean x.2)
    (s : Service) : appendLines buffer s = .ok () { s with disk := flushed s.disk buffer } := by
  induction buffer generalizing s with
  | nil => rfl
  | cons x buffer ih =>
    obtain ⟨date, line⟩ := x
    rw [appendLines, bind_ok (appendLine_run (clean _ (List.mem_cons_self ..)) s),
      ih fun x mem => clean x (List.mem_cons_of_mem _ mem)]
    rfl

theorem flush_run (clean : ∀ x ∈ s.writer.beBuffer, Clean x.2) : flushBestEffort s =
    .ok () ⟨flushed s.disk s.writer.beBuffer, { s.writer with beBuffer := [] }⟩ := by
  unfold flushBestEffort
  rw [bind_get, bind_ok (appendLines_run clean s)]
  rfl

end Writing

section Events

variable {host : Host} {data : Json} {name : String}

/-- A message that json.loads has read, with texts that can be encoded. -/
def Inbound (host : Host) (data : Json) : Prop := Fits host.toPython host.maxDepth data

/-- hexdigest: 64 hexadecimal digits. -/
def HexDigests (py : Python) : Prop :=
  ∀ b, (py.sha256 b).length = 64 ∧ (py.sha256 b).all fun c => c ∈ Lib.py "0123456789abcdef"

theorem HexDigests.encodable {py : Python} (h : HexDigests py) (b : Bytes) :
    Utf8.encodable (py.sha256 b) = true := by
  have table : (Lib.py "0123456789abcdef").all (fun c => !Utf8.isSurrogate c.val) = true := by decide
  refine List.all_eq_true.mpr fun c mem => ?_
  have digit := List.all_eq_true.mp (h b).2 c mem
  exact List.all_eq_true.mp table c (by simpa using digit)

theorem encodable_py {s : String} : Utf8.encodable (Lib.py s) = true := by
  refine List.all_eq_true.mpr fun c mem => ?_
  obtain ⟨x, -, rfl⟩ := List.mem_map.mp mem
  have valid : x.toNat.isValidChar := x.valid
  have plain : Utf8.isSurrogate x.toNat = false := by
    rw [Utf8.not_surrogate_iff]
    rcases valid with low | high
    · exact .inl low
    · exact .inr (by omega)
  simpa [CodePoint.ofChar] using plain

theorem fits_text {py : Python} {n : Nat} (s : String) : Fits py n (.text s) := .str encodable_py

theorem durability_cases {v : Json} (h : isIn v validDurability = .ok true) :
    v = .text "durable" ∨ v = .text "best_effort" := by
  unfold isIn at h
  split at h
  case isTrue => simpa [validDurability] using h
  case isFalse => cases h

/-- What the writer relies on in an event that validation accepts. -/
theorem valid_facts (h : validateEvent host data = .ok none) :
    (∃ fields, data = .obj fields) ∧ (∃ id, field data "source_event_id" = .str id) ∧
      (field data "durability" = .text "durable" ∨ field data "durability" = .text "best_effort") := by
  obtain ⟨fields, rfl, -, accepted⟩ := validateEvent_none.mp h
  refine ⟨⟨fields, rfl⟩, ?_, durability_cases accepted.durability⟩
  have uuid : isUuid (field (.obj fields) "source_event_id") = true := accepted.sourceEventId
  cases id : field (.obj fields) "source_event_id" with
  | str s => exact ⟨s, rfl⟩
  | _ =>
    rw [id] at uuid
    cases uuid

theorem mem_of_field? {k : PyStr} {fields : List (PyStr × Json)} {v : Json}
    (h : Json.field? k fields = some v) : (k, v) ∈ fields := by
  induction fields with
  | nil => cases h
  | cons f fields ih =>
    obtain ⟨l, w⟩ := f
    rw [Json.field?] at h
    split at h
    case isTrue same =>
      cases h
      subst same
      exact List.mem_cons_self ..
    case isFalse => exact List.mem_cons_of_mem _ (ih h)

variable {prevHash : PyStr} {eventId : Uuid7} {committedAt : String}

/-- The line of an event that is committed. -/
def lineOf (data : Json) (eventId : Uuid7) (committedAt : String) (prevHash : PyStr) : PyStr :=
  (committedEvent (field data) eventId committedAt prevHash).jsonLine

/-- The fields that the writer copies. -/
def copied : List String :=
  ["schema_version", "source_event_id", "timestamp", "event_type", "job_id", "parent_job_id",
    "capability_id", "wal_level", "source", "durability", "payload"]

/-- An event that is committed can be written and read back when the fields copied can. -/
theorem committed_fits {n : Nat} (values : ∀ name ∈ copied, Fits host.toPython n (field data name))
    (digest : Utf8.encodable prevHash = true) : Fits host.toPython (n + 1)
      (.obj (committedEvent (field data) eventId committedAt prevHash).toDict) := by
  refine .obj ?_ ?_ ?_
  · simp only [CommittedEvent.toDict, List.map_cons, List.map_nil]
    decide +kernel
  · simp [CommittedEvent.toDict, encodable_py]
  · intro f mem
    simp only [CommittedEvent.toDict, committedEvent, List.mem_cons, List.not_mem_nil,
      or_false] at mem
    rcases mem with rfl | rfl | rfl | rfl | rfl | rfl | rfl | rfl | rfl | rfl | rfl | rfl |
      rfl | rfl
    all_goals first | exact values _ (by simp [copied]) | exact fits_text _ | exact .str digest

/-- A message that fits is an object whose fields do. -/
theorem Inbound.fields (inbound : Inbound host data) (object : ∃ fields, data = .obj fields) :
    ∃ n, host.maxDepth = n + 1 ∧ ∀ name, Fits host.toPython n (field data name) := by
  obtain ⟨fields, rfl⟩ := object
  unfold Inbound at inbound
  cases depth : host.maxDepth with
  | zero =>
    rw [depth] at inbound
    cases inbound
  | succ n =>
    rw [depth] at inbound
    cases inbound with
    | obj distinct keys values =>
      refine ⟨n, rfl, fun name => ?_⟩
      cases found : Json.field? (Lib.py name) fields with
      | none =>
        have null : field (.obj fields) name = .null := by simp [field, Json.get?, found]
        rw [null]
        exact .null
      | some v =>
        have here : field (.obj fields) name = v := by simp [field, Json.get?, found]
        rw [here]
        exact values (_, v) (mem_of_field? found)

theorem line_of_fits (valid : validateEvent host data = .ok none)
    (fits : Fits host.toPython host.maxDepth
      (.obj (committedEvent (field data) eventId committedAt prevHash).toDict)) :
    Sound host.toPython (lineOf data eventId committedAt prevHash) ∧
      linePrev? host.toPython (lineOf data eventId committedAt prevHash) = some prevHash ∧
      (lineId? host.toPython (lineOf data eventId committedAt prevHash)).map .str =
        some (field data "source_event_id") := by
  obtain ⟨-, ⟨id, source⟩, -⟩ := valid_facts valid
  have read := loads_dumps false fits
  have found : lineId? host.toPython (lineOf data eventId committedAt prevHash) = some id := by
    unfold lineId? lineOf CommittedEvent.jsonLine
    rw [read]
    refine text?_eq.mpr ?_
    rw [← source]
    rfl
  refine ⟨⟨clean_dumps fits, id, found⟩, ?_, by rw [found, source]; rfl⟩
  unfold linePrev? lineOf CommittedEvent.jsonLine
  rw [read]
  rfl

theorem committed_line (inbound : Inbound host data) (valid : validateEvent host data = .ok none)
    (digest : Utf8.encodable prevHash = true) :
    Sound host.toPython (lineOf data eventId committedAt prevHash) ∧
      linePrev? host.toPython (lineOf data eventId committedAt prevHash) = some prevHash ∧
      (lineId? host.toPython (lineOf data eventId committedAt prevHash)).map .str =
        some (field data "source_event_id") := by
  obtain ⟨n, depth, values⟩ := inbound.fields (valid_facts valid).1
  have fits := @committed_fits host data prevHash eventId committedAt n (fun name _ => values name) digest
  rw [← depth] at fits
  exact line_of_fits valid fits

theorem isoformat_date (now : UtcTime) : String.ofList (now.isoformat.toList.take 10) = now.date.text := by
  rw [UtcTime.isoformat, String.toList_ofList]
  rfl

/-- The service before an event of the day: on another day the buffer is flushed first. -/
def turned (s : Service) (date : String) : Service :=
  if date ≠ s.writer.currentDate then
    ⟨flushed s.disk s.writer.beBuffer, { s.writer with beBuffer := [], currentDate := date }⟩
  else s

theorem turned_clean {s : Service} (clean : ∀ x ∈ s.writer.beBuffer, Clean x.2) (date : String) :
    ∀ x ∈ (turned s date).writer.beBuffer, Clean x.2 := by
  unfold turned
  split
  · exact nofun
  · exact clean

theorem turned_state (s : Service) (date : String) :
    (turned s date).writer.prevHash = s.writer.prevHash ∧
      (turned s date).writer.sequence = s.writer.sequence ∧
      (turned s date).writer.seenSourceIds = s.writer.seenSourceIds ∧
      (turned s date).writer.currentDate = date := by
  unfold turned
  split
  case isTrue => exact ⟨rfl, rfl, rfl, rfl⟩
  case isFalse same => exact ⟨rfl, rfl, rfl, (not_not.mp same).symm⟩

theorem commitEvent_run {s : Service} (clean : ∀ x ∈ s.writer.beBuffer, Clean x.2)
    (fields : String → Json) (now : UtcTime) (eventId : Uuid7) :
    commitEvent fields now eventId s = .ok
      (committedEvent fields eventId now.isoformat s.writer.prevHash) (turned s now.date.text) := by
  unfold commitEvent turned
  rw [bind_get]
  split
  case isTrue =>
    rw [bind_ok (flush_run clean)]
    rfl
  case isFalse same =>
    have date : { s.writer with currentDate := now.date.text } = s.writer := by
      rw [not_not.mp same]
    show EStateM.Result.ok _ (⟨s.disk, { s.writer with currentDate := now.date.text }⟩ : Service) = _
    rw [date]

/-- The service when the line of an event is written. -/
def recorded (s : Service) (durable : Bool) (date : String) (line : PyStr) : Service :=
  let buffer := s.writer.beBuffer ++ [(date, line)]
  if durable then ⟨flushed s.disk buffer, { s.writer with beBuffer := [] }⟩
  else ⟨s.disk, { s.writer with beBuffer := buffer }⟩

theorem flushed_append (d : Disk) (x y : List (String × PyStr)) :
    flushed d (x ++ y) = flushed (flushed d x) y := List.foldl_append ..

theorem writeEvent_run {s : Service} {e : CommittedEvent} {date : String}
    (clean : ∀ x ∈ s.writer.beBuffer, Clean x.2) (line : Clean e.jsonLine)
    (day : String.ofList (e.committedAt.toList.take 10) = date) :
    writeEvent host e s =
      let r := recorded s (e.durability = .text "durable") date e.jsonLine
      .ok () { r with
        writer.prevHash := computeHash host.toPython e.jsonLine
        writer.sequence := s.writer.sequence + 1
        writer.seenSourceIds := e.sourceEventId :: s.writer.seenSourceIds } := by
  unfold writeEvent recorded
  rw [day, encode_clean line]
  have hash : computeHash host.toPython e.jsonLine = host.sha256 (encoded e.jsonLine) := by
    rw [computeHash, encode_clean line]
    rfl
  rw [hash]
  by_cases durable : e.durability = .text "durable"
  · simp only [durable, decide_true, if_true]
    rw [bind_ok (flush_run clean), bind_ok (appendLine_run line _), flushed_append]
    rfl
  · simp only [durable, decide_false, if_false]
    rfl

/-- The service when it has accepted an event. -/
def accepted (host : Host) (s : Service) (data : Json) (now : UtcTime) (eventId : Uuid7) : Service :=
  let line := lineOf data eventId now.isoformat s.writer.prevHash
  let r := recorded (turned s now.date.text) (field data "durability" = .text "durable")
    now.date.text line
  { r with
    writer.prevHash := computeHash host.toPython line
    writer.sequence := s.writer.sequence + 1
    writer.seenSourceIds := field data "source_event_id" :: s.writer.seenSourceIds }

/-- An event is accepted and acknowledged, or it is not and nothing changes. -/
theorem handleEvent_cases {s : Service} (clean : ∀ x ∈ s.writer.beBuffer, Clean x.2)
    (digest : Utf8.encodable s.writer.prevHash = true) (inbound : Inbound host data) (now : UtcTime)
    (eventId : Uuid7) :
    (validateEvent host data = .ok none ∧ field data "source_event_id" ∉ s.writer.seenSourceIds ∧
      handleEvent host data now eventId s =
        .ok (.ack eventId now.isoformat s.writer.prevHash (s.writer.sequence + 1))
          (accepted host s data now eventId)) ∨
    (validateEvent host data = .ok none ∧ field data "source_event_id" ∈ s.writer.seenSourceIds ∧
      handleEvent host data now eventId s = .ok (.duplicate (field data "source_event_id")) s) ∨
    (∃ message, validateEvent host data = .ok (some message) ∧
      handleEvent host data now eventId s = .ok (.error message) s) ∨
    ∃ fault, validateEvent host data = .error fault ∧
      handleEvent host data now eventId s = .error fault s := by
  unfold handleEvent
  match valid : validateEvent host data with
  | .error fault => exact .inr (.inr (.inr ⟨fault, rfl, rfl⟩))
  | .ok (some message) => exact .inr (.inr (.inl ⟨message, rfl, rfl⟩))
  | .ok none =>
    by_cases seen : field data "source_event_id" ∈ s.writer.seenSourceIds
    · refine .inr (.inl ⟨rfl, seen, ?_⟩)
      dsimp only
      rw [bind_get, if_pos seen]
      rfl
    · refine .inl ⟨rfl, seen, ?_⟩
      obtain ⟨prev, sequence, known, -⟩ := turned_state s now.date.text
      have line : Clean (lineOf data eventId now.isoformat s.writer.prevHash) :=
        (committed_line inbound valid digest).1.clean
      have write := @writeEvent_run host (turned s now.date.text) _ now.date.text
        (turned_clean clean _) line (isoformat_date now)
      dsimp only
      rw [bind_get, if_neg seen]
      rw [bind_ok (commitEvent_run clean ..), bind_ok write, bind_get]
      unfold accepted
      rw [sequence, known]
      rfl

end Events

section Tracking

variable {py : Python} {pages : List Page} {texts : List PyStr} {current day clock : Day} {t : PyStr}
  {d : Disk} {s : Service}

def addAll (day : Day) (texts : List PyStr) (pages : List Page) : List Page :=
  texts.foldl (fun pages t => addLine day t pages) pages

theorem addAll_concat (day : Day) (texts : List PyStr) (t : PyStr) (pages : List Page) :
    addAll day (texts ++ [t]) pages = addLine day t (addAll day texts pages) := by
  simp [addAll]

theorem allTexts_addAll (day : Day) (texts : List PyStr) (pages : List Page) :
    allTexts (addAll day texts pages) = allTexts pages ++ texts := by
  induction texts using List.reverseRecOn with
  | nil => simp [addAll]
  | append_singleton texts t ih => rw [addAll_concat, allTexts_add, ih, List.append_assoc]

theorem addLine_days (behind : ∀ p ∈ pages, p.day ≤ clock) (order : day ≤ clock) :
    ∀ p ∈ addLine day t pages, p.day ≤ clock := by
  rcases addLine_cases pages day t with ⟨before, texts, rfl, added⟩ | ⟨-, added⟩
  all_goals
    rw [added]
    intro p mem
    rcases List.mem_append.mp mem with mem | last
  · exact behind p (List.mem_append_left _ mem)
  · cases List.mem_singleton.mp last
    exact order
  · exact behind p mem
  · cases List.mem_singleton.mp last
    exact order

theorem day_le_refl (d : Day) : d ≤ d := Nat.le_refl d.key

theorem addAll_kept (kept : Kept py pages) (behind : ∀ p ∈ pages, p.day ≤ day)
    (sound : ∀ t ∈ texts, Sound py t) :
    Kept py (addAll day texts pages) ∧ ∀ p ∈ addAll day texts pages, p.day ≤ day := by
  induction texts using List.reverseRecOn with
  | nil => exact ⟨kept, behind⟩
  | append_singleton texts t ih =>
    obtain ⟨kept', behind'⟩ := ih fun t mem => sound t (List.mem_append_left _ mem)
    rw [addAll_concat]
    exact ⟨kept'.add behind' (sound t (by simp)), addLine_days behind' (day_le_refl day)⟩

/-- A buffer of a day's lines, written to the disk. -/
theorem flushed_holds (holds : d.Holds pages) (kept : Kept py pages)
    (behind : ∀ p ∈ pages, p.day ≤ day) (sound : ∀ t ∈ texts, Sound py t) :
    (flushed d (texts.map (day.text, ·))).Holds (addAll day texts pages) := by
  induction texts using List.reverseRecOn with
  | nil => exact holds
  | append_singleton texts t ih =>
    have before : ∀ t ∈ texts, Sound py t := fun t mem => sound t (List.mem_append_left _ mem)
    obtain ⟨kept', behind'⟩ := addAll_kept kept behind before
    rw [addAll_concat, List.map_append, flushed_append]
    exact (ih before).write kept' behind'

/-- The pages before a buffer are linked when the pages with it are. -/
theorem linked_of_addAll (kept : Kept py pages) (behind : ∀ p ∈ pages, p.day ≤ day)
    (sound : ∀ t ∈ texts, Sound py t) (linked : PagesLinked py (addAll day texts pages)) :
    PagesLinked py pages := by
  induction texts using List.reverseRecOn with
  | nil => exact linked
  | append_singleton texts t ih =>
    have before : ∀ t ∈ texts, Sound py t := fun t mem => sound t (List.mem_append_left _ mem)
    obtain ⟨b, lines, -⟩ := pageLines_add (addAll_kept kept behind before).1 day t
    rw [addAll_concat, PagesLinked, lines, HashChain.chained_append] at linked
    exact ih before linked.1

/-- The pages on disk with the lines of the buffer are a chain, and the writer knows its end. Right
after a start that follows a gap it is at genesis instead, and its next line opens a page. -/
structure Tracks (py : Python) (pages : List Page) (current : Day) (texts : List PyStr)
    (s : Service) : Prop where
  holds : s.disk.Holds pages
  kept : Kept py pages
  behind : ∀ p ∈ pages, p.day ≤ current
  sound : ∀ t ∈ texts, Sound py t
  date : s.writer.currentDate = current.text
  buffer : s.writer.beBuffer = texts.map (current.text, ·)
  linked : PagesLinked py (addAll current texts pages)
  next : s.writer.prevHash = lastHash py (addAll current texts pages) ∨
    s.writer.sequence = 0 ∧ texts = [] ∧ s.writer.prevHash = genesisHash py ∧
      ∃ gap, gap < current ∧ ∀ p ∈ pages, p.day < gap
  seen : ∀ id, .str id ∈ s.writer.seenSourceIds →
    ∃ t ∈ allTexts pages ++ texts, lineId? py t = some id

theorem Tracks.clean (h : Tracks py pages current texts s) : ∀ x ∈ s.writer.beBuffer, Clean x.2 := by
  rw [h.buffer]
  intro x mem
  obtain ⟨t, line, rfl⟩ := List.mem_map.mp mem
  exact (h.sound t line).clean

theorem tip_digest (texts : List PyStr) :
    ∃ b, HashChain.tip (computeHash py) (genesisHash py) texts = py.sha256 b := by
  cases texts using List.reverseRecOn with
  | nil => exact ⟨genesisBytes, rfl⟩
  | append_singleton texts t => exact ⟨_, HashChain.tip_concat ..⟩

theorem Tracks.digest (digests : HexDigests py) (h : Tracks py pages current texts s) :
    Utf8.encodable s.writer.prevHash = true := by
  rcases h.next with eq | ⟨-, -, eq, -⟩
  · obtain ⟨b, tip⟩ := @tip_digest py (allTexts (addAll current texts pages))
    rw [eq, lastHash, tip]
    exact digests.encodable b
  · rw [eq]
    exact digests.encodable _

theorem Tracks.flush (h : Tracks py pages current texts s) :
    Tracks py (addAll current texts pages) current []
      ⟨flushed s.disk s.writer.beBuffer, { s.writer with beBuffer := [] }⟩ := by
  obtain ⟨kept, behind⟩ := addAll_kept h.kept h.behind h.sound
  refine ⟨?_, kept, behind, nofun, h.date, rfl, h.linked, ?_, ?_⟩
  · rw [h.buffer]
    exact flushed_holds h.holds h.kept h.behind h.sound
  · rcases h.next with eq | ⟨zero, rfl, genesis, gap⟩
    · exact .inl eq
    · exact .inr ⟨zero, rfl, genesis, gap⟩
  · rw [allTexts_addAll, List.append_nil]
    exact h.seen

/-- Before an event: the writer has turned to its day. -/
theorem Tracks.turn (h : Tracks py pages current texts s) (order : current ≤ day) :
    ∃ pages' texts', Tracks py pages' day texts' (turned s day.text) ∧
      addAll day texts' pages' = addAll current texts pages ∧
      allTexts pages' ++ texts' = allTexts pages ++ texts := by
  unfold turned
  by_cases same : day.text = s.writer.currentDate
  · rw [h.date] at same
    cases Day.text_injective same
    rw [if_neg (by simp [h.date])]
    exact ⟨pages, texts, h, rfl, rfl⟩
  · rw [if_pos same]
    obtain ⟨holds, kept, behind, -, -, -, linked, next, seen⟩ := h.flush
    refine ⟨addAll current texts pages, [], ⟨holds, kept, ?_, nofun, rfl, rfl, linked, ?_, seen⟩,
      rfl, by rw [allTexts_addAll, List.append_nil]⟩
    · exact fun p mem => Nat.le_trans (behind p mem) order
    · refine next.imp_right ?_
      rintro ⟨zero, none, genesis, gap, earlier, before⟩
      exact ⟨zero, none, genesis, gap, Nat.lt_of_lt_of_le earlier order, before⟩

/-- A line that names the writer's hash is recorded, on disk or in the buffer. -/
theorem Tracks.record (h : Tracks py pages day texts s) (durable : Bool) {line : PyStr}
    (sound : Sound py line) (names : linePrev? py line = some s.writer.prevHash) {id : Json}
    (source : (lineId? py line).map .str = some id) :
    ∃ pages' texts', Tracks py pages' day texts'
        { recorded s durable day.text line with
          writer.prevHash := computeHash py line
          writer.sequence := s.writer.sequence + 1
          writer.seenSourceIds := id :: s.writer.seenSourceIds } ∧
      allTexts pages' ++ texts' = allTexts pages ++ texts ++ [line] ∧
      (durable = true → texts' = []) := by
  obtain ⟨kept, behind⟩ := addAll_kept h.kept h.behind h.sound
  have all : ∀ t ∈ texts ++ [line], Sound py t := by
    intro t mem
    rcases List.mem_append.mp mem with mem | last
    · exact h.sound t mem
    · cases List.mem_singleton.mp last
      exact sound
  have buffer : s.writer.beBuffer ++ [(day.text, line)] = (texts ++ [line]).map (day.text, ·) := by
    rw [h.buffer, List.map_append, List.map_singleton]
  have linked : PagesLinked py (addAll day (texts ++ [line]) pages) := by
    rw [addAll_concat]
    refine linked_add kept h.linked ?_
    rw [names]
    rcases h.next with eq | ⟨-, rfl, genesis, gap, earlier, before⟩
    · exact .inl (congrArg some eq)
    · exact .inr ⟨congrArg some genesis, fun p mem => Nat.lt_trans (before p mem) earlier⟩
  have next : computeHash py line = lastHash py (addAll day (texts ++ [line]) pages) := by
    rw [addAll_concat, lastHash_add]
  have seen : ∀ id', .str id' ∈ id :: s.writer.seenSourceIds →
      ∃ t ∈ allTexts pages ++ (texts ++ [line]), lineId? py t = some id' := by
    intro id' mem
    rw [← List.append_assoc]
    rcases List.mem_cons.mp mem with eq | mem
    · rw [← eq] at source
      obtain ⟨i, found, same⟩ := Option.map_eq_some_iff.mp source
      cases same
      exact ⟨line, by simp, found⟩
    · obtain ⟨t, there, found⟩ := h.seen id' mem
      exact ⟨t, List.mem_append_left _ there, found⟩
  unfold recorded
  cases durable with
  | true =>
    obtain ⟨kept', behind'⟩ := addAll_kept h.kept h.behind all
    refine ⟨addAll day (texts ++ [line]) pages, [],
      ⟨?_, kept', behind', nofun, h.date, rfl, linked, .inl next, ?_⟩, ?_, fun _ => rfl⟩
    · dsimp only
      rw [buffer]
      exact flushed_holds h.holds h.kept h.behind all
    · rw [allTexts_addAll, List.append_nil]
      exact seen
    · rw [allTexts_addAll, List.append_nil, List.append_assoc]
  | false =>
    exact ⟨pages, texts ++ [line],
      ⟨h.holds, h.kept, h.behind, all, h.date, buffer, linked, .inl next, seen⟩,
      by rw [List.append_assoc], nofun⟩

variable {host : Host} {data : Json} {now : UtcTime} {eventId : Uuid7}

/-- An event that is accepted adds its line at the end. -/
theorem Tracks.accept_line (h : Tracks host.toPython pages current texts s)
    (order : current ≤ now.date)
    (sound : Sound host.toPython (lineOf data eventId now.isoformat s.writer.prevHash))
    (names : linePrev? host.toPython (lineOf data eventId now.isoformat s.writer.prevHash) =
      some s.writer.prevHash)
    (source : (lineId? host.toPython (lineOf data eventId now.isoformat s.writer.prevHash)).map .str =
      some (field data "source_event_id")) :
    ∃ pages' texts',
      Tracks host.toPython pages' now.date texts' (accepted host s data now eventId) ∧
      allTexts pages' ++ texts' =
        allTexts pages ++ texts ++ [lineOf data eventId now.isoformat s.writer.prevHash] ∧
      (field data "durability" = .text "durable" → texts' = []) := by
  obtain ⟨pages', texts', turn, -, lines⟩ := h.turn order
  obtain ⟨prev, sequence, known, -⟩ := turned_state s now.date.text
  obtain ⟨pages'', texts'', record, more, durable⟩ :=
    turn.record (field data "durability" = .text "durable") sound
      (names.trans (congrArg some prev.symm)) source
  refine ⟨pages'', texts'', ?_, by rw [more, lines],
    fun eq => durable (decide_eq_true eq)⟩
  rw [sequence, known] at record
  exact record

theorem Tracks.accept (digests : HexDigests host.toPython)
    (h : Tracks host.toPython pages current texts s) (order : current ≤ now.date)
    (inbound : Inbound host data) (valid : validateEvent host data = .ok none) :
    ∃ pages' texts',
      Tracks host.toPython pages' now.date texts' (accepted host s data now eventId) ∧
      allTexts pages' ++ texts' =
        allTexts pages ++ texts ++ [lineOf data eventId now.isoformat s.writer.prevHash] ∧
      (field data "durability" = .text "durable" → texts' = []) := by
  obtain ⟨sound, names, source⟩ := @committed_line host data s.writer.prevHash eventId now.isoformat
    inbound valid (h.digest digests)
  exact h.accept_line order sound names source

theorem mem_recent {today later : Day} (mem : t ∈ recent pages today later) : t ∈ allTexts pages := by
  obtain ⟨x, -, mem⟩ := List.mem_flatMap.mp mem
  unfold textsOf at mem
  cases found : pages.find? (·.day = x) with
  | none =>
    rw [found] at mem
    cases mem
  | some p =>
    rw [found] at mem
    exact List.mem_flatMap.mpr ⟨p, List.mem_of_find?_eq_some found, mem⟩

/-- The writer that a start makes. -/
def started (py : Python) (pages : List Page) (today later start : Day) : Writer :=
  let lines := recent pages today later
  ⟨HashChain.tip (computeHash py) (genesisHash py) lines, lines.length, (ids py lines).reverse,
    start.text, []⟩

theorem recent_nil (today later : Day) : recent [] today later = [] := by simp [recent, textsOf]

/-- A start on an empty log. -/
theorem started_nil (py : Python) (today later start : Day) :
    started py [] today later start = ⟨genesisHash py, 0, [], start.text, []⟩ := by
  rw [started, recent_nil]
  rfl

theorem initialize_pages (holds : d.Holds pages) (kept : Kept host.toPython pages)
    (today later start : Day) :
    initialize_ host d today later start = .ok (started host.toPython pages today later start) := by
  unfold initialize_
  rw [recoverChainState_pages holds kept]
  simp [bind, Except.bind, pure, Except.pure, ChainState.after, started]

theorem tracks_start {today later start : Day} (holds : d.Holds pages) (kept : Kept py pages)
    (linked : PagesLinked py pages) (behind : ∀ p ∈ pages, p.day ≤ today) (order : today ≤ later)
    (order' : later ≤ start) : Tracks py pages start [] ⟨d, started py pages today later start⟩ := by
  refine ⟨holds, kept, ?_, nofun, rfl, rfl, linked, ?_, ?_⟩
  · exact fun p mem => Nat.le_trans (behind p mem) (Nat.le_trans order order')
  · rcases recent_cases kept behind order with tip | ⟨none, gap, earlier, before⟩
    · exact .inl tip
    · refine .inr ⟨?_, rfl, ?_, gap, Nat.lt_of_lt_of_le earlier order', before⟩
      · rw [started, none]
        rfl
      · rw [started, none]
        rfl
  · intro id mem
    obtain ⟨t, there, found⟩ := mem_ids.mp (List.mem_reverse.mp mem)
    exact ⟨t, List.mem_append_left _ (mem_recent there), found⟩

end Tracking

section System

/-- An event that was acknowledged: the message and what the answer says of it. -/
structure Acked where
  data : Json
  eventId : Uuid7
  committedAt : String
  prevHash : PyStr

/-- The line that the event has in the log. -/
def Acked.line (a : Acked) : PyStr := lineOf a.data a.eventId a.committedAt a.prevHash

def acknowledged (data : Json) : Response → List Acked
  | .ack eventId committedAt prevHash _ => [⟨data, eventId, committedAt, prevHash⟩]
  | _ => []

/-- The disk and the process, if it runs; the day that the clock last showed, and the events that
were acknowledged and not lost. -/
structure System where
  disk : Disk
  writer : Option Writer
  clock : Day
  acked : List Acked

def running (after : Service) (clock : Day) (acked : List Acked) : System :=
  ⟨after.disk, some after.writer, clock, acked⟩

/-- What happens between two events or with one; the clock does not go back. -/
inductive Step (host : Host) : System → System → Prop
  | answer {s w data now eventId response after} (up : s.writer = some w)
      (inbound : Inbound host data) (order : s.clock ≤ now.date)
      (handled : handleEvent host data now eventId ⟨s.disk, w⟩ = .ok response after) :
      Step host s (running after now.date (s.acked ++ acknowledged data response))
  | raise {s w data now eventId fault after} (up : s.writer = some w)
      (inbound : Inbound host data) (order : s.clock ≤ now.date)
      (handled : handleEvent host data now eventId ⟨s.disk, w⟩ = .error fault after) :
      Step host s (running after now.date s.acked)
  | flush {s w after} (up : s.writer = some w)
      (flushed : flushBestEffort ⟨s.disk, w⟩ = .ok () after) :
      Step host s (running after s.clock s.acked)
  -- a shutdown flushes the buffer
  | stop {s w after} (up : s.writer = some w)
      (flushed : flushBestEffort ⟨s.disk, w⟩ = .ok () after) :
      Step host s ⟨after.disk, none, s.clock, s.acked⟩
  -- the events of the buffer, which are the last that were acknowledged, are lost
  | crash {s w} (up : s.writer = some w) : Step host s
      ⟨s.disk, none, s.clock, s.acked.take (s.acked.length - w.beBuffer.length)⟩
  | start {s w today later start} (off : s.writer = none)
      (order : s.clock ≤ today ∧ today ≤ later ∧ later ≤ start)
      (made : initialize_ host s.disk today later start = .ok w) :
      Step host s ⟨s.disk, some w, start, s.acked⟩

def emptyDisk : Disk := ⟨[], .nil, ∅⟩

/-- The states of a log that starts without files. -/
inductive Reached (host : Host) : System → Prop
  | first (clock : Day) : Reached host ⟨emptyDisk, none, clock, []⟩
  | next {s s'} (before : Reached host s) (step : Step host s s') : Reached host s'

/-- The log of a state: pages on disk, and a running writer that tracks them. -/
structure Logged (host : Host) (s : System) (pages : List Page) : Prop where
  holds : s.disk.Holds pages
  kept : Kept host.toPython pages
  linked : PagesLinked host.toPython pages
  behind : ∀ p ∈ pages, p.day ≤ s.clock
  whole : s.writer = none → allTexts pages = s.acked.map Acked.line
  tracks : ∀ w, s.writer = some w → ∃ current texts, current ≤ s.clock ∧
    Tracks host.toPython pages current texts ⟨s.disk, w⟩ ∧
    allTexts pages ++ texts = s.acked.map Acked.line

variable {host : Host} {s s' : System} {pages : List Page}

theorem Tracks.logged {current : Day} {texts : List PyStr} {after : Service} {clock : Day}
    {acked : List Acked} (h : Tracks host.toPython pages current texts after)
    (order : current ≤ clock) (lines : allTexts pages ++ texts = acked.map Acked.line) :
    Logged host (running after clock acked) pages where
  holds := h.holds
  kept := h.kept
  linked := linked_of_addAll h.kept h.behind h.sound h.linked
  behind p mem := Nat.le_trans (h.behind p mem) order
  whole := nofun
  tracks w eq := by
    cases eq
    exact ⟨current, texts, order, h, lines⟩

theorem logged_step (digests : HexDigests host.toPython) (log : Logged host s pages)
    (step : Step host s s') : ∃ pages', Logged host s' pages' := by
  cases step with
  | @answer w data now eventId response after up inbound order handled =>
    obtain ⟨current, texts, earlier, tracks, lines⟩ := log.tracks w up
    have turn := Nat.le_trans earlier order
    rcases handleEvent_cases tracks.clean (tracks.digest digests) inbound now eventId with
      ⟨valid, -, eq⟩ | ⟨-, -, eq⟩ | ⟨message, -, eq⟩ | ⟨fault, -, eq⟩
    all_goals
      rw [eq] at handled
      cases handled
    · have accept : ∃ pages' texts',
          Tracks _ pages' now.date texts' (accepted host ⟨s.disk, w⟩ data now eventId) ∧ _ :=
        tracks.accept digests turn inbound valid
      obtain ⟨pages', texts', tracks', more, -⟩ := accept
      refine ⟨pages', tracks'.logged (day_le_refl _) ?_⟩
      rw [more, lines, acknowledged, List.map_append, List.map_singleton]
      rfl
    · exact ⟨pages, tracks.logged turn (by simpa [acknowledged] using lines)⟩
    · exact ⟨pages, tracks.logged turn (by simpa [acknowledged] using lines)⟩
  | @raise w data now eventId fault after up inbound order handled =>
    obtain ⟨current, texts, earlier, tracks, lines⟩ := log.tracks w up
    rcases handleEvent_cases tracks.clean (tracks.digest digests) inbound now eventId with
      ⟨-, -, eq⟩ | ⟨-, -, eq⟩ | ⟨message, -, eq⟩ | ⟨fault, -, eq⟩
    all_goals
      rw [eq] at handled
      cases handled
    exact ⟨pages, tracks.logged (Nat.le_trans earlier order) lines⟩
  | @flush w after up flushed =>
    obtain ⟨current, texts, earlier, tracks, lines⟩ := log.tracks w up
    rw [flush_run tracks.clean] at flushed
    cases flushed
    refine ⟨_, tracks.flush.logged earlier ?_⟩
    rw [allTexts_addAll, List.append_nil, lines]
  | @stop w after up flushed =>
    obtain ⟨current, texts, earlier, tracks, lines⟩ := log.tracks w up
    rw [flush_run tracks.clean] at flushed
    cases flushed
    have logged : Logged host (running _ s.clock s.acked) _ :=
      tracks.flush.logged earlier (by rw [allTexts_addAll, List.append_nil, lines])
    refine ⟨_, logged.holds, logged.kept, logged.linked, logged.behind, fun _ => ?_, nofun⟩
    rw [allTexts_addAll, lines]
  | @crash w up =>
    obtain ⟨current, texts, earlier, tracks, lines⟩ := log.tracks w up
    refine ⟨pages, log.holds, log.kept, log.linked, log.behind, fun _ => ?_, nofun⟩
    have buffer : w.beBuffer.length = texts.length := by
      rw [show w.beBuffer = _ from tracks.buffer, List.length_map]
    have count := congrArg List.length lines
    rw [List.length_append, List.length_map] at count
    rw [List.map_take, ← lines, buffer, List.take_left']
    omega
  | @start w today later start off order made =>
    obtain ⟨first, second, third⟩ := order
    have behind : ∀ p ∈ pages, p.day ≤ today := fun p mem => Nat.le_trans (log.behind p mem) first
    rw [initialize_pages log.holds log.kept] at made
    cases made
    have tracks := tracks_start log.holds log.kept log.linked behind second third
    exact ⟨pages, tracks.logged (day_le_refl _) (by rw [List.append_nil, log.whole off])⟩

theorem logged_reached (digests : HexDigests host.toPython) (h : Reached host s) :
    ∃ pages, Logged host s pages := by
  induction h with
  | first clock => exact ⟨[], rfl, ⟨.nil, nofun, nofun⟩, trivial, nofun, fun _ => rfl, nofun⟩
  | next before step ih =>
    obtain ⟨pages, log⟩ := ih
    exact logged_step digests log step

section Records

variable {py : Python} {d : Disk}

/-- The records of the files are the lines of the pages, and end in the hash that the last has. -/
theorem records_pages (holds : d.Holds pages) (kept : Kept py pages) :
    (readRecords py d.logs).map (·.raw) = (allTexts pages).map encoded ∧
      tipOf py (readRecords py d.logs) = lastHash py pages := by
  have text (r : Record) (mem : r ∈ readRecords py d.logs) : r.text? = some (r.text?.getD []) ∧
      r.raw = encoded (r.text?.getD []) ∧ chainHash py r = computeHash py (r.text?.getD []) := by
    rw [holds] at mem
    obtain ⟨p, page, t, line, -, raw, parsed⟩ := record_of_mem kept mem
    have textual := text?_getD (readRecords_textual kept r mem).2
    have decoded : Utf8.decode (unreturned r.raw) = some (r.text?.getD []) :=
      (Option.filter_eq_some_iff.mp textual).1
    have plain : unreturned r.raw = r.raw := by
      rw [raw]
      exact unreturned_eq (encoded_free (kept.sound p page t line).clean (by decide))
    rw [plain, raw, Utf8.decode_of_encode (encode_clean (kept.sound p page t line).clean)] at decoded
    exact ⟨textual, by rw [raw, Option.some.inj decoded], (line_of_record parsed textual).2.symm⟩
  have lines : (readRecords py d.logs).map (fun r => r.text?.getD []) = allTexts pages := by
    have snd := congrArg (·.map fun r : Record => r.text?.getD []) (flagged_records (readRecords py d.logs))
    rw [← pageLines_snd, ← gateLines_pages holds kept, ← snd, List.map_map, List.map_map]
    rfl
  constructor
  case left =>
    rw [← lines, List.map_map]
    exact List.map_congr_left fun r mem => (text r mem).2.1
  case right =>
    rw [lastHash, ← lines]
    generalize readRecords py d.logs = records at text
    cases records using List.reverseRecOn with
    | nil => rfl
    | append_singleton before r =>
      rw [List.map_append, List.map_singleton, tipOf, HashChain.tip_concat, HashChain.tip_concat]
      exact (text r (by simp)).2.2

end Records

/-- With the buffer written out the files are a chain of the acknowledged lines. -/
theorem Logged.agrees (log : Logged host s pages) {w : Writer} (up : s.writer = some w) :
    let whole := flushed s.disk w.beBuffer
    ((verifyPath host.toPython whole).status = .valid ∨
      (verifyPath host.toPython whole).status = .empty) ∧
    (readRecords host.toPython whole.logs).map (·.raw) = s.acked.map (fun a => encoded a.line) ∧
    (w.prevHash = tipOf host.toPython (readRecords host.toPython whole.logs) ∨
      w.sequence = 0 ∧ w.beBuffer = [] ∧ w.prevHash = genesisHash host.toPython ∧
        (∃ gap, gap < s.clock ∧ ∀ f ∈ s.disk.logs, f.name < getFilePath gap.text) ∧
        ∀ day, s.clock ≤ day → s.disk.exists? (getFilePath day.text) = false) := by
  obtain ⟨current, texts, earlier, tracks, lines⟩ := log.tracks w up
  have whole : (flushed s.disk w.beBuffer).Holds (addAll current texts pages) := tracks.flush.holds
  have kept := tracks.flush.kept
  obtain ⟨raw, tip⟩ := records_pages whole kept
  refine ⟨(verifyPath_pages whole kept).mpr tracks.linked, ?_, ?_⟩
  · rw [raw, allTexts_addAll, lines, List.map_map]
    rfl
  · rw [tip]
    refine tracks.next.imp_right ?_
    rintro ⟨zero, rfl, genesis, gap, less, before⟩
    have behind : ∀ f ∈ s.disk.logs, f.name < getFilePath gap.text := by
      intro f mem
      rw [log.holds] at mem
      obtain ⟨p, page, rfl⟩ := List.mem_map.mp mem
      exact getFilePath_lt (before p page)
    have ended : gap < s.clock := Nat.lt_of_lt_of_le less earlier
    refine ⟨zero, tracks.buffer, genesis, ⟨gap, ended, behind⟩, fun day later => ?_⟩
    have after : getFilePath gap.text < getFilePath day.text :=
      getFilePath_lt (Nat.lt_of_lt_of_le ended later)
    simpa [Disk.exists?] using fun f mem => ((behind f mem).trans after).ne

/-- The writer and the verifier agree in every state: the files on disk are a valid chain; with the
buffer written out they are one too, and hold the lines of the acknowledged events in order; and the
writer's hash is that of the last line, unless it has just started after a gap, when it is genesis and
the next line opens a file. -/
theorem writer_agrees (digests : HexDigests host.toPython) (h : Reached host s) :
    ((verifyPath host.toPython s.disk).status = .valid ∨
      (verifyPath host.toPython s.disk).status = .empty) ∧
    (s.writer = none →
      (readRecords host.toPython s.disk.logs).map (·.raw) = s.acked.map fun a => encoded a.line) ∧
    ∀ w, s.writer = some w →
      let whole := flushed s.disk w.beBuffer
      ((verifyPath host.toPython whole).status = .valid ∨
        (verifyPath host.toPython whole).status = .empty) ∧
      (readRecords host.toPython whole.logs).map (·.raw) = s.acked.map (fun a => encoded a.line) ∧
      (w.prevHash = tipOf host.toPython (readRecords host.toPython whole.logs) ∨
        w.sequence = 0 ∧ w.beBuffer = [] ∧ w.prevHash = genesisHash host.toPython ∧
          (∃ gap, gap < s.clock ∧ ∀ f ∈ s.disk.logs, f.name < getFilePath gap.text) ∧
          ∀ day, s.clock ≤ day → s.disk.exists? (getFilePath day.text) = false) := by
  obtain ⟨pages, log⟩ := logged_reached digests h
  refine ⟨(verifyPath_pages log.holds log.kept).mpr log.linked, ?_, fun w up => log.agrees up⟩
  intro off
  rw [(records_pages log.holds log.kept).1, log.whole off, List.map_map]
  rfl

/-- A running writer may accept any event of a new source. -/
theorem Reached.accept (digests : HexDigests host.toPython) (h : Reached host s) {w : Writer}
    (up : s.writer = some w) {data : Json} (inbound : Inbound host data)
    (valid : validateEvent host data = .ok none)
    (fresh : field data "source_event_id" ∉ w.seenSourceIds) {now : UtcTime}
    (order : s.clock ≤ now.date) (eventId : Uuid7) :
    Reached host (running (accepted host ⟨s.disk, w⟩ data now eventId) now.date
      (s.acked ++ [⟨data, eventId, now.isoformat, w.prevHash⟩])) := by
  obtain ⟨pages, log⟩ := logged_reached digests h
  obtain ⟨current, texts, -, tracks, -⟩ := log.tracks w up
  rcases handleEvent_cases tracks.clean (tracks.digest digests) inbound now eventId with
    ⟨-, -, eq⟩ | ⟨-, seen, -⟩ | ⟨message, refused, -⟩ | ⟨fault, raised, -⟩
  · exact h.next (.answer up inbound order eq)
  · exact absurd seen fresh
  · rw [valid] at refused
    cases refused
  · rw [valid] at raised
    cases raised

theorem Reached.flush (digests : HexDigests host.toPython) (h : Reached host s) {w : Writer}
    (up : s.writer = some w) : Reached host
      ⟨flushed s.disk w.beBuffer, some { w with beBuffer := [] }, s.clock, s.acked⟩ := by
  obtain ⟨pages, log⟩ := logged_reached digests h
  obtain ⟨current, texts, -, tracks, -⟩ := log.tracks w up
  exact h.next (.flush up (flush_run tracks.clean))

/-- A crash loses the last acknowledged events, as many as wait in the buffer. -/
theorem Reached.crash (h : Reached host s) {w : Writer} (up : s.writer = some w)
    {kept lost : List Acked} (acked : s.acked = kept ++ lost)
    (buffer : w.beBuffer.length = lost.length) : Reached host ⟨s.disk, none, s.clock, kept⟩ := by
  have taken : s.acked.take (s.acked.length - w.beBuffer.length) = kept := by
    rw [acked, buffer, List.length_append, Nat.add_sub_cancel, List.take_left]
  have crashed := h.next (.crash up)
  rw [taken] at crashed
  exact crashed

/-- A start after a stop of any length. -/
theorem Reached.start (digests : HexDigests host.toPython) (h : Reached host s)
    (off : s.writer = none) {day : Day} (order : s.clock ≤ day) :
    ∃ pages, s.disk.Holds pages ∧ Reached host
      ⟨s.disk, some (started host.toPython pages day day day), day, s.acked⟩ := by
  obtain ⟨pages, log⟩ := logged_reached digests h
  exact ⟨pages, log.holds, h.next (.start off ⟨order, day_le_refl day, day_le_refl day⟩
    (initialize_pages log.holds log.kept ..))⟩

end System

section Sample

instance neZero_ids : NeZero 16 := ⟨by decide⟩

instance neZero_days : NeZero 28 := ⟨by decide⟩

def sampleId (n : Fin 16) : Uuid7 := ⟨0x19B7A000000, 0, ⟨n.val, by omega⟩⟩

def sampleTime (day : Fin 28) : UtcTime where
  year := 2026
  month := 1
  day := day.val + 1
  hour := 10
  minute := 0
  second := 0
  microsecond := 0
  hyear := UtcTime.year_2026
  hmonth := UtcTime.january
  hday := ⟨by omega, by have := daysInMonth_bounds 2026 1; omega⟩
  hclock := by decide

/-- An event without a job. -/
def probeEvent (durability : String) (n : Fin 16) (day : Fin 28) : Json :=
  (buildEvent { eventType := "system.health_probe", jobId := none, durability, payload := [] }
    (sampleId n) (sampleTime day)).toJson

def sampleEvent : Fin 16 → Fin 28 → Json := probeEvent "durable"

/-- An event that waits in the buffer. -/
def noteEvent : Fin 16 → Fin 28 → Json := probeEvent "best_effort"

def noteLine (n : Fin 16) (day : Fin 28) (prev : String) : PyStr :=
  lineOf (noteEvent n day) (sampleId (n + 1)) (sampleTime day).isoformat (Lib.py prev)

def sampleLine (n : Fin 16) (day : Fin 28) (prev : String) : PyStr :=
  lineOf (sampleEvent n day) (sampleId (n + 1)) (sampleTime day).isoformat (Lib.py prev)

def sampleDigest : String := "1c47a93031df72b6c4d6969dbac28965cc6c70074218bedb369eb8a113e614ec"

def noteDigest : String := "73ba85375b644306647fcf56e07373717b772e5b833d3dd8d06e69dba3bead84"

def laterDigest : String := "9cf67f9adec6127f037552babddce766d0ea434f0806f0e0e04c2e5a5400e6a1"

/-- SHA-256 where it is used here. -/
def sampleSha (b : Bytes) : String :=
  if b = genesisBytes then genesisDigest
  else if b = encoded (sampleLine 1 0 genesisDigest) then sampleDigest
  else if b = encoded (sampleLine 3 4 genesisDigest) then
    "04843e385e814689de6b2469082d848ee6b0508667761592a628e2f536e7fa15"
  else if b = encoded (noteLine 5 0 genesisDigest) then noteDigest
  else if b = encoded (sampleLine 7 1 noteDigest) then laterDigest
  else if b = encoded (noteLine 9 1 laterDigest) then
    "ea10856098ee5d9ac0c227e1cb7f6104f950b9ecf35003a2004b628332a08980"
  else String.ofList (.replicate 64 '0')

def sampleHost : Host where
  maxDepth := 1000
  float s := ⟨(Lib.decode? s).getD ""⟩
  sha256 b := Lib.py (sampleSha b)
  str _ := []
  fromisoformat s := s.length = 27

theorem sample_digests : HexDigests sampleHost.toPython := by
  intro b
  show (Lib.py (sampleSha b)).length = 64 ∧
    (Lib.py (sampleSha b)).all fun c => c ∈ Lib.py "0123456789abcdef"
  unfold sampleSha
  split_ifs
  all_goals decide +kernel

theorem probe_inbound (durability : String) (n : Fin 16) (day : Fin 28) :
    Inbound sampleHost (probeEvent durability n day) := by
  refine .obj (n := 999) ?_ (by simp [encodable_py]) ?_
  · simp only [List.map_cons, List.map_nil]
    decide +kernel
  intro f mem
  simp only [List.mem_cons, List.not_mem_nil, or_false] at mem
  rcases mem with rfl | rfl | rfl | rfl | rfl | rfl | rfl | rfl | rfl | rfl | rfl
  all_goals first | exact fits_text _ | exact .null | exact .obj (n := 998) .nil nofun nofun

theorem sample_inbound (n : Fin 16) (day : Fin 28) : Inbound sampleHost (sampleEvent n day) :=
  probe_inbound "durable" n day

theorem sample_valid : validateEvent sampleHost (sampleEvent 1 0) = .ok none := by decide +kernel

/-- A best-effort event is flushed, a durable one comes on the next day, and a second best-effort
one is lost in a crash before the next start. -/
theorem writer_agrees_witness : ∃ s, Reached sampleHost s ∧ s.writer.isSome = true ∧
    (readRecords sampleHost.toPython s.disk.logs).map (·.raw) =
      [encoded (noteLine 5 0 genesisDigest), encoded (sampleLine 7 1 noteDigest)] := by
  obtain ⟨pages, holds, run⟩ :=
    (@Reached.first sampleHost (sampleTime 0).date).start sample_digests rfl (day_le_refl _)
  have none : pages = [] := by
    have none : pages.map Page.file = [] := holds.symm
    simpa using none
  subst none
  have genesis : genesisHash sampleHost.toPython = Lib.py genesisDigest := by decide +kernel
  rw [started_nil, genesis] at run
  have day_next : (sampleTime 0).date ≤ (sampleTime 1).date := by decide +kernel
  have noted := run.accept sample_digests rfl (probe_inbound "best_effort" 5 0) (by decide +kernel) (by decide)
    (day_le_refl _) (sampleId 6)
  have kept := noted.flush sample_digests rfl
  have durable := kept.accept sample_digests rfl (sample_inbound 7 1) (by decide +kernel)
    (by decide +kernel) (day_next : (sampleTime 0).date ≤ (sampleTime 1).date) (sampleId 8)
  have second := durable.accept sample_digests rfl (probe_inbound "best_effort" 9 1) (by decide +kernel)
    (by decide +kernel) (day_le_refl (sampleTime 1).date) (sampleId 10)
  have crashed := second.crash rfl rfl (by decide +kernel)
  obtain ⟨pages, -, restarted⟩ := crashed.start sample_digests rfl (day_le_refl _)
  obtain ⟨-, lines, -⟩ := (writer_agrees sample_digests restarted).2.2 _ rfl
  refine ⟨_, restarted, rfl, lines.trans ?_⟩
  show List.map (fun a : Acked => encoded a.line) ([] ++ [_] ++ [_]) = _
  decide +kernel

end Sample

end Drnt.Audit
