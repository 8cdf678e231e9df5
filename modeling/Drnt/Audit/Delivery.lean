import Drnt.Audit.Wire

/-! Delivery of an event to the audit log: the client's attempts, the writer that may be stopped
between them, and the lines that come of it. -/
namespace Drnt.Audit

open Lib Lib.Framing
open Loads (Shallow shallow_loads unpaired_of_encodable)

section DayLines

variable {py : Python} {pages : List Page} {texts : List PyStr} {d : Disk} {day other : Day}
  {t u : PyStr}

/-- The lines in the file of a day. -/
def Disk.lines (d : Disk) (day : Day) : List PyStr :=
  ((d.read? (getFilePath day.text)).bind TextMode.read).getD []

theorem lines_pages (holds : d.Holds pages) (kept : Kept py pages) (day : Day) :
    d.lines day = textsOf pages day := by
  unfold Disk.lines textsOf
  rw [read_page holds]
  cases found : pages.find? (·.day = day) with
  | none => rfl
  | some p =>
    have page := List.mem_of_find?_eq_some found
    have read : TextMode.read p.file.data = some p.texts :=
      read_encoded fun t line => (kept.sound p page t line).clean
    simp [read]

theorem textsOf_addLine (mem : t ∈ textsOf pages other) :
    t ∈ textsOf (addLine day u pages) other := by
  unfold textsOf at mem ⊢
  obtain ⟨before, texts, rfl, added⟩ | ⟨-, added⟩ := addLine_cases pages day u
  · rw [added]
    rw [List.find?_append] at mem ⊢
    cases found : before.find? (·.day = other) with
    | some p =>
      rw [found] at mem
      exact mem
    | none =>
      rw [found] at mem
      by_cases same : day = other
      · simp only [Option.none_or, List.find?_cons, same, decide_true] at mem ⊢
        exact List.mem_append_left _ mem
      · simp [same] at mem
  · rw [added, List.find?_append]
    cases found : pages.find? (·.day = other) with
    | none => simp [found] at mem
    | some p =>
      rw [found] at mem
      exact mem

theorem textsOf_addAll (mem : t ∈ textsOf pages other) :
    t ∈ textsOf (addAll day texts pages) other := by
  induction texts using List.reverseRecOn with
  | nil => exact mem
  | append_singleton texts u ih =>
    rw [addAll_concat]
    exact textsOf_addLine ih

/-- A line that is added is in the file of its day. -/
theorem textsOf_added (kept : Kept py (addLine day t pages))
    (last : ∃ p ∈ addLine day t pages, p.day = day ∧ t ∈ p.texts) :
    t ∈ textsOf (addLine day t pages) day := by
  obtain ⟨p, mem, rfl, line⟩ := last
  unfold textsOf
  have found : (addLine p.day t pages).find? (·.day = p.day) = some p := by
    obtain ⟨before, after, split⟩ := List.append_of_mem mem
    rw [split] at kept ⊢
    have apart : before.find? (·.day = p.day) = none := by
      apply List.find?_eq_none.mpr
      intro q inside
      have less := (List.pairwise_append.mp kept.ordered).2.2 q inside p (List.mem_cons_self ..)
      simpa using fun eq => Nat.lt_irrefl _ (eq ▸ less)
    simp [List.find?_append, apart]
  simp [found, line]

theorem mem_addLine (day : Day) (t : PyStr) (pages : List Page) :
    ∃ p ∈ addLine day t pages, p.day = day ∧ t ∈ p.texts := by
  obtain ⟨before, texts, rfl, added⟩ | ⟨-, added⟩ := addLine_cases pages day t
  · exact ⟨⟨day, texts ++ [t]⟩, by simp [added], rfl, by simp⟩
  · exact ⟨⟨day, [t]⟩, by simp [added], rfl, by simp⟩

end DayLines

section Growth

variable {host : Host} {pages : List Page} {texts : List PyStr} {d d' : Disk} {s : Service}
  {current day : Day} {line : PyStr}

/-- No line leaves the file of its day. -/
def Disk.Grows (d d' : Disk) : Prop := ∀ day, ∀ t ∈ d.lines day, t ∈ d'.lines day

theorem Disk.Grows.refl (d : Disk) : d.Grows d := fun _ _ mem => mem

theorem Disk.Grows.trans {d d' d'' : Disk} (h : d.Grows d') (h' : d'.Grows d'') : d.Grows d'' :=
  fun day t mem => h' day t (h day t mem)

theorem grows_flushed (tracks : Tracks host.toPython pages current texts s) :
    s.disk.Grows (flushed s.disk s.writer.beBuffer) := by
  intro day t mem
  have after := tracks.flush
  rw [lines_pages tracks.holds tracks.kept] at mem
  rw [lines_pages after.holds after.kept]
  exact textsOf_addAll mem

theorem grows_turned (tracks : Tracks host.toPython pages current texts s) (date : String) :
    s.disk.Grows (turned s date).disk := by
  unfold turned
  split
  · exact grows_flushed tracks
  · exact Disk.Grows.refl _

/-- A durable line is on disk when it is recorded, and nothing that was there is lost. -/
theorem recorded_durable (tracks : Tracks host.toPython pages day texts s)
    (sound : Sound host.toPython line) :
    s.disk.Grows (recorded s true day.text line).disk ∧
      line ∈ (recorded s true day.text line).disk.lines day := by
  have all : ∀ t ∈ texts ++ [line], Sound host.toPython t := by
    intro t mem
    rcases List.mem_append.mp mem with mem | last
    · exact tracks.sound t mem
    · rw [List.mem_singleton.mp last]
      exact sound
  have buffer : s.writer.beBuffer ++ [(day.text, line)] = (texts ++ [line]).map (day.text, ·) := by
    rw [tracks.buffer, List.map_append, List.map_singleton]
  have disk : (recorded s true day.text line).disk =
      flushed s.disk ((texts ++ [line]).map (day.text, ·)) := by
    rw [← buffer]
    rfl
  have holds := flushed_holds tracks.holds tracks.kept tracks.behind all
  obtain ⟨kept, -⟩ := addAll_kept tracks.kept tracks.behind all
  rw [disk]
  constructor
  · intro other t mem
    rw [lines_pages tracks.holds tracks.kept] at mem
    rw [lines_pages holds kept]
    exact textsOf_addAll mem
  · rw [lines_pages holds kept]
    rw [addAll_concat] at kept ⊢
    exact textsOf_added kept (mem_addLine ..)

/-- An event that is accepted takes nothing off the disk; a durable one is on it. -/
theorem accepted_grows {data : Json} {now : UtcTime} {eventId : Uuid7}
    (tracks : Tracks host.toPython pages current texts s) (order : current ≤ now.date)
    (sound : Sound host.toPython (lineOf data eventId now.isoformat s.writer.prevHash)) :
    s.disk.Grows (accepted host s data now eventId).disk ∧
      (field data "durability" = .text "durable" →
        lineOf data eventId now.isoformat s.writer.prevHash ∈
          (accepted host s data now eventId).disk.lines now.date) := by
  obtain ⟨pages', texts', turn, -, -⟩ := tracks.turn order
  have first := grows_turned tracks now.date.text
  obtain ⟨grows, stored⟩ := recorded_durable turn sound
  by_cases durable : field data "durability" = .text "durable"
  · have disk : (accepted host s data now eventId).disk =
        (recorded (turned s now.date.text) true now.date.text
          (lineOf data eventId now.isoformat s.writer.prevHash)).disk := by
      simp only [accepted, durable, decide_true]
    rw [disk]
    exact ⟨first.trans grows, fun _ => stored⟩
  · have disk : (accepted host s data now eventId).disk = (turned s now.date.text).disk := by
      simp only [accepted, durable, decide_false]
      rfl
    rw [disk]
    exact ⟨first, fun eq => absurd eq durable⟩

end Growth

section Sources

variable {host : Host} {s s' t : System} {pages : List Page} {id : Json}

/-- What the lines of acknowledged events carry. -/
theorem acked_sources (digests : HexDigests host.toPython) (run : Reached host s) :
    ∀ a ∈ s.acked, (lineId? host.toPython a.line).map .str =
      some (field a.data "source_event_id") := by
  induction run with
  | first clock => simp
  | @next s s' before step ih =>
    cases step with
    | @answer w data now eventId response after up inbound order handled =>
      obtain ⟨pages, log⟩ := logged_reached digests before
      obtain ⟨current, texts, -, tracks, -⟩ := log.tracks w up
      have digest := tracks.digest digests
      intro a inside
      have new : a ∈ s.acked ++ acknowledged data response := inside
      clear inside
      rcases List.mem_append.mp new with earlier | new
      · exact ih a earlier
      · rcases handleEvent_cases tracks.clean digest inbound now eventId with
          ⟨valid, -, eq⟩ | ⟨-, -, eq⟩ | ⟨message, -, eq⟩ | ⟨fault, -, eq⟩
        all_goals
          rw [eq] at handled
          cases handled
        · rw [List.mem_singleton.mp new]
          exact (committed_line inbound valid digest).2.2
        · cases new
        · cases new
    | raise => exact ih
    | flush => exact ih
    | stop => exact ih
    | crash => exact fun a mem => ih a (List.mem_of_mem_take mem)
    | start => exact ih

/-- Whether a line carries a source_event_id. -/
def carries (py : Python) (id : Json) (line : PyStr) : Bool := (lineId? py line).map .str = some id

/-- How many acknowledged events have the source_event_id. -/
def ackedCopies (id : Json) (s : System) : Nat :=
  s.acked.countP fun a => field a.data "source_event_id" = id

theorem ackedCopies_lines (digests : HexDigests host.toPython) (run : Reached host s) :
    ackedCopies id s = (s.acked.map Acked.line).countP (carries host.toPython id) := by
  rw [ackedCopies, List.countP_map]
  apply List.countP_congr
  intro a mem
  have source := acked_sources digests run a mem
  simp [carries, source]

/-- The records on disk that carry a source_event_id. -/
def copies (py : Python) (id : Json) (d : Disk) : Nat :=
  (readRecords py d.logs).countP fun r =>
    r.parsed.bind (Json.field? (Lib.py "source_event_id")) = some id

theorem copies_lines {d : Disk} (holds : d.Holds pages) (kept : Kept host.toPython pages) :
    copies host.toPython id d = (allTexts pages).countP (carries host.toPython id) := by
  let raw (b : Bytes) : Bool :=
    (parse host.toPython b).bind (Json.field? (Lib.py "source_event_id")) = some id
  have records : copies host.toPython id d =
      ((readRecords host.toPython d.logs).map (·.raw)).countP raw := by
    rw [copies, List.countP_map]
    apply List.countP_congr
    intro r mem
    simp [raw, parsed_of_mem mem]
  rw [records, (records_pages holds kept).1, List.countP_map]
  apply List.countP_congr
  intro t mem
  obtain ⟨p, page, line⟩ := List.mem_flatMap.mp mem
  have sound := kept.sound p page t line
  obtain ⟨fields, read⟩ := sound.object
  obtain ⟨i, found⟩ := sound.id
  have decoded := Utf8.decode_of_encode (encode_clean sound.clean)
  have field : Json.field? (Lib.py "source_event_id") fields = some (.str i) := by
    unfold lineId? at found
    rw [read] at found
    exact text?_eq.mp found
  simp [raw, carries, parse, decoded, read, found, field]

/-- The lines on disk are the first that were acknowledged. -/
theorem Logged.prefix_ (log : Logged host s pages) : allTexts pages <+: s.acked.map Acked.line := by
  cases up : s.writer with
  | none =>
    exact ⟨[], by rw [log.whole up, List.append_nil]⟩
  | some w =>
    obtain ⟨current, texts, -, -, lines⟩ := log.tracks w up
    exact ⟨texts, lines⟩

theorem copies_le (digests : HexDigests host.toPython) (run : Reached host s) :
    copies host.toPython id s.disk ≤ ackedCopies id s := by
  obtain ⟨pages, log⟩ := logged_reached digests run
  rw [copies_lines log.holds log.kept, ackedCopies_lines digests run]
  exact log.prefix_.sublist.countP_le

theorem copies_pos {d : Disk} (holds : d.Holds pages) (kept : Kept host.toPython pages) {day : Day}
    {line : PyStr} (mem : line ∈ d.lines day) (carried : carries host.toPython id line = true) :
    0 < copies host.toPython id d := by
  rw [copies_lines holds kept]
  apply List.countP_pos_iff.mpr
  refine ⟨line, ?_, carried⟩
  rw [lines_pages holds kept] at mem
  unfold textsOf at mem
  cases found : pages.find? (·.day = day) with
  | none => simp [found] at mem
  | some p =>
    rw [found] at mem
    exact List.mem_flatMap.mpr ⟨p, List.mem_of_find?_eq_some found, mem⟩

end Sources

section Knowledge

variable {host : Host} {s s' : System} {pages : List Page} {id : Json} {first : Day}

/-- A day or the one after it. -/
def Near (first day : Day) : Prop := day = first ∨ day.yesterday = some first

/-- The source_event_id stands on disk in the file of a day near the first, and a running writer
knows it, until it is too late for that. -/
structure Present (host : Host) (id : Json) (first : Day) (s : System) : Prop where
  stored : ∃ day, Near first day ∧ day ≤ s.clock ∧
    ∃ line ∈ s.disk.lines day, carries host.toPython id line = true
  known : ∀ w, s.writer = some w →
    id ∈ w.seenSourceIds ∨ ∀ day, Near first day → day < s.clock

theorem Present.copied (digests : HexDigests host.toPython) (run : Reached host s)
    (h : Present host id first s) : 0 < copies host.toPython id s.disk := by
  obtain ⟨pages, log⟩ := logged_reached digests run
  obtain ⟨day, -, -, line, mem, carried⟩ := h.stored
  exact copies_pos log.holds log.kept mem carried

/-- Nothing is lost that is on disk or known, and the clock may go on. -/
theorem Present.mono {after : Service} {w : Writer} {clock : Day} {acked : List Acked}
    (up : s.writer = some w) (grows : s.disk.Grows after.disk)
    (more : ∀ id ∈ w.seenSourceIds, id ∈ after.writer.seenSourceIds) (order : s.clock ≤ clock)
    (h : Present host id first s) : Present host id first (running after clock acked) := by
  obtain ⟨day, near, before, line, mem, carried⟩ := h.stored
  refine ⟨⟨day, near, Nat.le_trans before order, line, grows day line mem, carried⟩, ?_⟩
  intro w' eq
  cases eq
  rcases h.known w up with known | past
  · exact .inl (more id known)
  · exact .inr fun day near => Nat.lt_of_lt_of_le (past day near) order

/-- A start reads the file of the day, unless the day after the first is over. -/
theorem present_start {today later start : Day} (log : Logged host s pages)
    (h : Present host id first s) (order : s.clock ≤ today ∧ today ≤ later ∧ later ≤ start) :
    Present host id first
      ⟨s.disk, some (started host.toPython pages today later start), start, s.acked⟩ := by
  obtain ⟨day, near, before, line, mem, carried⟩ := h.stored
  obtain ⟨from_, next, last⟩ := order
  have inside : day ≤ today := Nat.le_trans before from_
  refine ⟨⟨day, near, Nat.le_trans inside (Nat.le_trans next last), line, mem, carried⟩, ?_⟩
  have read (here : day = today ∨ later.yesterday = some day) :
      id ∈ (started host.toPython pages today later start).seenSourceIds := by
    have line_ : line ∈ recent pages today later := by
      rw [lines_pages log.holds log.kept] at mem
      apply List.mem_flatMap.mpr
      refine ⟨day, ?_, mem⟩
      rcases here with same | same
      · simp [same]
      · simp [same]
    obtain ⟨i, found, rfl⟩ := Option.map_eq_some_iff.mp (of_decide_eq_true carried)
    exact List.mem_reverse.mpr (mem_ids.mpr ⟨line, line_, found⟩)
  intro w eq
  cases eq
  rcases Day.lt_or_eq_of_le inside with less | same
  · have earlier : day < later := Nat.lt_of_lt_of_le less next
    cases yesterday : later.yesterday with
    | none => exact absurd earlier (Nat.not_lt.mpr (Day.yesterday_none yesterday day))
    | some y =>
      rcases Day.lt_or_eq_of_le (Day.le_yesterday yesterday earlier) with less | same
      · right
        have begun : first ≤ day := by
          rcases near with same | after
          · rw [same]
            exact day_le_refl _
          · exact Nat.le_of_lt (Day.yesterday_lt after)
        have beginning : first < y := Nat.lt_of_le_of_lt begun less
        have ended : y < start := Nat.lt_of_lt_of_le (Day.yesterday_lt yesterday) last
        intro other near
        rcases near with same | after
        · rw [same]
          exact Nat.lt_trans beginning ended
        · by_contra late
          have beyond : y < other := Nat.lt_of_lt_of_le ended (Nat.not_lt.mp late)
          exact absurd beginning (Nat.not_lt.mpr (Day.le_yesterday after beyond))
      · exact .inl (read (.inr (by rw [yesterday, same])))
  · exact .inl (read (.inl same))

theorem present_step (digests : HexDigests host.toPython) (run : Reached host s)
    (step : Step host s s') (h : Present host id first s) : Present host id first s' := by
  obtain ⟨pages, log⟩ := logged_reached digests run
  cases step with
  | @answer w data now eventId response after up inbound order handled =>
    obtain ⟨current, texts, earlier, tracks, -⟩ := log.tracks w up
    have digest := tracks.digest digests
    rcases handleEvent_cases tracks.clean digest inbound now eventId with
      ⟨valid, -, eq⟩ | ⟨-, -, eq⟩ | ⟨message, -, eq⟩ | ⟨fault, -, eq⟩
    all_goals
      rw [eq] at handled
      cases handled
    · obtain ⟨sound, -⟩ := @committed_line host data w.prevHash eventId now.isoformat inbound valid
        digest
      have grows := (accepted_grows tracks (Nat.le_trans earlier order) sound).1
      exact h.mono up grows (fun _ mem => List.mem_cons_of_mem _ mem) order
    · exact h.mono up (Disk.Grows.refl _) (fun _ mem => mem) order
    · exact h.mono up (Disk.Grows.refl _) (fun _ mem => mem) order
  | @raise w data now eventId fault after up inbound order handled =>
    obtain ⟨current, texts, -, tracks, -⟩ := log.tracks w up
    rcases handleEvent_cases tracks.clean (tracks.digest digests) inbound now eventId with
      ⟨-, -, eq⟩ | ⟨-, -, eq⟩ | ⟨message, -, eq⟩ | ⟨fault, -, eq⟩
    all_goals
      rw [eq] at handled
      cases handled
    exact h.mono up (Disk.Grows.refl _) (fun _ mem => mem) order
  | @flush w after up flushed =>
    obtain ⟨current, texts, -, tracks, -⟩ := log.tracks w up
    rw [flush_run tracks.clean] at flushed
    cases flushed
    exact h.mono up (grows_flushed tracks) (fun _ mem => mem) (day_le_refl _)
  | @stop w after up flushed =>
    obtain ⟨current, texts, -, tracks, -⟩ := log.tracks w up
    rw [flush_run tracks.clean] at flushed
    cases flushed
    obtain ⟨day, near, before, line, mem, carried⟩ := h.stored
    exact ⟨⟨day, near, before, line, grows_flushed tracks day line mem, carried⟩, by simp⟩
  | crash => exact ⟨h.stored, by simp⟩
  | @start w today later start off order made =>
    rw [initialize_pages log.holds log.kept] at made
    cases made
    exact present_start log h order

end Knowledge

section Emitting

/-- A step of the writer that does not come of the event: another event, or nothing acknowledged. -/
inductive Elsewhere (host : Host) (id : Json) : System → System → Prop
  | event {s w data now eventId response after} (other : field data "source_event_id" ≠ id)
      (up : s.writer = some w) (inbound : Inbound host data) (order : s.clock ≤ now.date)
      (handled : handleEvent host data now eventId ⟨s.disk, w⟩ = .ok response after) :
      Elsewhere host id s (running after now.date (s.acked ++ acknowledged data response))
  -- an exception, a flush, a stop, a crash that loses the buffer, a start
  | silent {s s'} (step : Step host s s') (nothing : s'.acked <+: s.acked) : Elsewhere host id s s'

/-- The state after a connection; one that passes nothing on leaves no trace. -/
def connected (s : System) (now : UtcTime) (served : Served) (after : Service) : System :=
  match served.passed with
  | none => s
  | some data =>
    running after now.date (s.acked ++ (served.response.map (acknowledged data)).getD [])

variable (host : Host) (describe : Bytes → PyStr) (event : Json) (attempts : Nat → Attempt)
  (first : Day) (s : System)

/-- The runs in which a client emits an event: the connections of its attempts that reach the
writer, each with the state when the reply is sent, among other steps. Of the request a part or all
arrives, and of the reply a part or all is read. -/
inductive Emitting : List (Nat × System) → System → Prop
  | start : Emitting [] s
  | elsewhere {log t t'} (before : Emitting log t)
      (step : Elsewhere host (field event "source_event_id") t t') : Emitting log t'
  | connection {log t w body data now eventId served after} (k : Nat) (chunks : Chunks)
      (before : Emitting log t) (up : t.writer = some w) (order : t.clock ≤ now.date)
      (near : Near first now.date) (sent : request event = some body)
      (framed : frame body = some data) (arriving : Arriving chunks)
      (begins : chunks.flatten <+: data)
      (serves : handleConnection host describe chunks now eventId ⟨t.disk, w⟩ = (served, after))
      (answered : (attempts k).reply.flatten <+: served.reply.getD []) :
      Emitting (log ++ [(k, connected t now served after)]) (connected t now served after)

end Emitting

section Connection

variable {host : Host} {describe : Bytes → PyStr} {event : Json} {s after : Service}
  {body data : Bytes} {chunks : Chunks} {now : UtcTime} {eventId : Uuid7} {served : Served}

theorem inbound_request (framed : frame body = some data) (arriving : Arriving chunks)
    (begins : chunks.flatten <+: data) :
    inbound chunks = none ∨ ∃ rest, inbound chunks = some (body, rest) := by
  by_cases short : chunks.flatten.length < data.length
  · exact .inl (inbound_short framed arriving begins short)
  · have whole : chunks.flatten = data ++ [] := by
      rw [List.append_nil]
      exact begins.eq_of_length_le (Nat.not_lt.mp short)
    by_cases small : body.length ≤ maxMessageSize
    · obtain ⟨rest, read, -⟩ := inbound_whole small framed arriving whole
      exact .inr ⟨rest, read⟩
    · left
      obtain ⟨head, rfl, length, value⟩ := frame_some framed
      rw [List.append_assoc] at whole
      obtain ⟨more, read, -, -⟩ := recvExact_whole arriving whole
      rw [length] at read
      rw [inbound, read]
      show (if maxMessageSize < unpack head then none else recvExact (unpack head) [] more) = _
      rw [value, if_pos (Nat.not_le.mp small)]

/-- A request of which nothing is passed on is answered with an error, if at all. -/
theorem handleConnection_unread (h : inbound chunks = none)
    (serves : handleConnection host describe chunks now eventId s = (served, after)) :
    served.passed = none ∧ ∃ response, served.reply = response.bind Response.send ∧
      ∀ r, response = some r → r = .error (Lib.py "Message too large") := by
  unfold inbound at h
  unfold handleConnection at serves
  cases read : recvExact 4 [] chunks with
  | none =>
    rw [read] at serves
    cases serves
    exact ⟨rfl, none, rfl, by simp⟩
  | some x =>
    obtain ⟨head, more⟩ := x
    rw [read] at h serves
    change (if maxMessageSize < unpack head then none else _) = none at h
    dsimp only at serves
    by_cases large : maxMessageSize < unpack head
    · rw [if_pos large] at serves
      cases serves
      exact ⟨rfl, some (.error (Lib.py "Message too large")), rfl, by simp⟩
    · rw [if_neg large] at h serves
      rw [h] at serves
      cases serves
      exact ⟨rfl, none, rfl, by simp⟩

/-- A request that is read is passed on. -/
theorem connection_read (inbound_ : Inbound host event) (sent : request event = some body)
    {rest : Chunks} (read : inbound chunks = some (body, rest))
    (serves : handleConnection host describe chunks now eventId s = (served, after)) :
    (∃ response, handleEvent host event now eventId s = .ok response after ∧
      served.passed = some event ∧ served.response = some response ∧
      served.reply = response.send) ∨
    ∃ fault, handleEvent host event now eventId s = .error fault after ∧
      served.passed = some event ∧ served.response = none ∧ served.reply = none := by
  have parsed : parseMessage host.toPython body = .value event := by
    rw [parseMessage, Utf8.decode_of_encode sent]
    dsimp only
    rw [Loads.loads_dumps true inbound_]
  rw [handleConnection_inbound read, parsed] at serves
  dsimp only at serves
  cases handled : handleEvent host event now eventId s with
  | ok response after' =>
    rw [handled] at serves
    cases serves
    exact .inl ⟨response, rfl, rfl, rfl, rfl⟩
  | error fault after' =>
    rw [handled] at serves
    cases serves
    exact .inr ⟨fault, rfl, rfl, rfl, rfl⟩

variable {client : Python} {a : Attempt} {reply : Bytes}

/-- A reply of which a part is missing is not read. -/
theorem short_reply {body : Bytes} (framed : frame body = some reply)
    (begins : a.reply.flatten <+: reply) (short : a.reply.flatten.length < reply.length) :
    a.body? = none := by
  obtain ⟨head, rfl, length, value⟩ := frame_some framed
  unfold Attempt.body?
  dsimp only
  apply if_neg
  rintro ⟨first, enough⟩
  have head_ : a.reply.flatten.take 4 = head := by
    obtain ⟨missing, eq⟩ := begins
    have same := congrArg (List.take 4) eq
    rw [List.take_append_of_le_length first, ← length, List.take_left] at same
    rw [← length, same]
  rw [head_, value, List.length_drop] at enough
  rw [List.length_append] at short
  omega

/-- A reply that the client accepts is an acknowledgement or tells of a duplicate. -/
theorem accepted_reply (room : 0 < client.maxDepth) {response : Option Response}
    (legible : ∀ r, response = some r → r.Legible)
    (answered : a.reply.flatten <+: (response.bind Response.send).getD [])
    (accepts : Accepts client a) :
    ∃ r, response = some r ∧ ∀ message, r ≠ .error message := by
  obtain ⟨fields, replied, yes⟩ := accepts
  have connects : a.connects := by
    by_contra unconnected
    have steady : ¬ a.Hangs := by
      intro hangs
      rw [Replied, (sendAndReceive_hangs client).mpr hangs] at replied
      cases replied
    obtain ⟨e, eq, -⟩ := sendAndReceive_unconnected client steady unconnected
    rw [Replied, eq] at replied
    cases replied
  have complete : a.body? ≠ none := by
    intro short
    rw [Replied, sendAndReceive_short connects short] at replied
    cases replied
  cases sent : response.bind Response.send with
  | none =>
    rw [sent] at answered
    have empty : a.reply.flatten = [] := List.prefix_nil.mp answered
    exact absurd (by simp [Attempt.body?, empty]) complete
  | some reply =>
    obtain ⟨r, rfl, send⟩ := Option.bind_eq_some_iff.mp sent
    rw [sent] at answered
    have framed : ∃ body, frame body = some reply := by
      unfold Response.send at send
      split at send
      · obtain ⟨body, -, framed⟩ := Option.bind_eq_some_iff.mp send
        exact ⟨body, framed⟩
      · cases send
    obtain ⟨body, framed⟩ := framed
    have whole : a.reply.flatten = reply := by
      apply answered.eq_of_length_le
      by_contra short
      exact complete (short_reply framed answered (Nat.not_le.mp short))
    obtain ⟨left_, received, -⟩ := receive_reply room (legible r rfl) send
      (by rw [whole, List.append_nil]) a.ending
    rw [Replied, sendAndReceive_connected connects, received] at replied
    refine ⟨r, rfl, ?_⟩
    rintro message rfl
    cases replied
    have no : statusAccepted (.obj (Response.error message).toDict) = .ok false := rfl
    rw [no] at yes
    cases yes

end Connection

section Once

variable {host : Host} {describe : Bytes → PyStr} {event : Json} {attempts : Nat → Attempt}
  {first : Day} {s t t' : System} {client : Python} {log : List (Nat × System)} {id : Json}

/-- The event is acknowledged once, and its line is on disk. -/
structure Once (host : Host) (id : Json) (first : Day) (t : System) : Prop where
  copy : ackedCopies id t = 1
  present : Present host id first t

theorem Once.copies (digests : HexDigests host.toPython) (run : Reached host t)
    (h : Once host id first t) : copies host.toPython id t.disk = 1 := by
  have some_ := h.present.copied digests run
  have most : Drnt.Audit.copies host.toPython id t.disk ≤ 1 := h.copy ▸ copies_le digests run
  omega

theorem acknowledged_other {data : Json} (other : field data "source_event_id" ≠ id)
    (response : Response) : (acknowledged data response).countP
      (fun a => field a.data "source_event_id" = id) = 0 := by
  cases response <;> simp [acknowledged, other]

theorem Elsewhere.step (h : Elsewhere host id t t') : Step host t t' := by
  cases h with
  | event other up inbound order handled => exact .answer up inbound order handled
  | silent step nothing => exact step

theorem Elsewhere.copies_le (h : Elsewhere host id t t') :
    ackedCopies id t' ≤ ackedCopies id t := by
  cases h with
  | event other up inbound order handled =>
    unfold ackedCopies running
    rw [List.countP_append, acknowledged_other other]
    exact Nat.le_refl _
  | silent step nothing => exact nothing.sublist.countP_le

theorem once_step (digests : HexDigests host.toPython) (run : Reached host t)
    (step : Step host t t') (h : Once host id first t) (most : ackedCopies id t' ≤ 1) :
    Once host id first t' := by
  have present := present_step digests run step h.present
  have after := run.next step
  have some_ := present.copied digests after
  have enough := @copies_le host t' id digests after
  exact ⟨by omega, present⟩

theorem once_elsewhere (digests : HexDigests host.toPython) (run : Reached host t)
    (step : Elsewhere host id t t') (h : Once host id first t) : Once host id first t' :=
  once_step digests run step.step h (h.copy ▸ step.copies_le)

/-- A writer that goes on as it is. -/
theorem Once.idle {w : Writer} {clock : Day} (up : t.writer = some w) (order : t.clock ≤ clock)
    (h : Once host id first t) :
    Once host id first (running ⟨t.disk, w⟩ clock (t.acked ++ [])) := by
  refine ⟨?_, h.present.mono up (Disk.Grows.refl _) (fun _ mem => mem) order⟩
  rw [ackedCopies, running, List.append_nil]
  exact h.copy

/-- The event comes to the writer on a day near the first: it is acknowledged if it has not been. -/
theorem handled_once (digests : HexDigests host.toPython) (run : Reached host t) {w : Writer}
    (up : t.writer = some w) (inbound : Inbound host event)
    (durable : field event "durability" = .text "durable") {now : UtcTime} {eventId : Uuid7}
    (order : t.clock ≤ now.date) (near : Near first now.date) {response : Response}
    {after : Service}
    (handled : handleEvent host event now eventId ⟨t.disk, w⟩ = .ok response after)
    (state : ackedCopies (field event "source_event_id") t = 0 ∨
      Once host (field event "source_event_id") first t) :
    let t' := running after now.date (t.acked ++ acknowledged event response)
    (ackedCopies (field event "source_event_id") t' = 0 ∨
        Once host (field event "source_event_id") first t') ∧
      ((∀ message, response ≠ .error message) →
        Once host (field event "source_event_id") first t') := by
  obtain ⟨pages, log⟩ := logged_reached digests run
  obtain ⟨current, texts, earlier, tracks, lines⟩ := log.tracks w up
  have digest := tracks.digest digests
  rcases handleEvent_cases tracks.clean digest inbound now eventId with
    ⟨valid, unknown, eq⟩ | ⟨valid, known, eq⟩ | ⟨message, -, eq⟩ | ⟨fault, -, eq⟩
  all_goals
    rw [eq] at handled
    cases handled
  · have none_ : ackedCopies (field event "source_event_id") t = 0 := by
      apply state.resolve_right
      intro once
      rcases once.present.known w up with known | past
      · exact unknown known
      · exact Nat.lt_irrefl _ (Nat.lt_of_lt_of_le (past _ near) order)
    obtain ⟨sound, -, source⟩ := @committed_line host event w.prevHash eventId now.isoformat inbound
      valid digest
    have stored := (accepted_grows tracks (Nat.le_trans earlier order) sound).2 durable
    have once : Once host (field event "source_event_id") first
        (running (accepted host ⟨t.disk, w⟩ event now eventId) now.date
          (t.acked ++ acknowledged event
            (.ack eventId now.isoformat w.prevHash (w.sequence + 1)))) := by
      refine ⟨?_, ⟨⟨now.date, near, day_le_refl _, _, stored, decide_eq_true source⟩, ?_⟩⟩
      · unfold ackedCopies at none_ ⊢
        rw [running, List.countP_append, none_]
        simp [acknowledged]
      · intro w' eq
        cases eq
        exact .inl (List.mem_cons_self ..)
    exact ⟨.inr once, fun _ => once⟩
  · have once : Once host (field event "source_event_id") first t := by
      apply state.resolve_left
      obtain ⟨-, ⟨i, source⟩, -⟩ := valid_facts valid
      dsimp only at known
      rw [source] at known
      obtain ⟨line, mem, found⟩ := tracks.seen i known
      rw [lines] at mem
      rw [ackedCopies_lines digests run]
      apply Nat.pos_iff_ne_zero.mp
      exact List.countP_pos_iff.mpr ⟨line, mem, by simp [carries, found, source]⟩
    exact ⟨.inr (once.idle up order), fun _ => once.idle up order⟩
  · refine ⟨?_, fun wrong => absurd rfl (wrong message)⟩
    rcases state with none_ | once
    · left
      show ackedCopies _ (running _ _ (t.acked ++ [])) = 0
      rw [ackedCopies, running, List.append_nil]
      exact none_
    · exact .inr (once.idle up order)

/-- What holds throughout an emit. -/
structure Delivers (host : Host) (event : Json) (client : Python) (attempts : Nat → Attempt)
    (first : Day) (log : List (Nat × System)) (t : System) : Prop where
  run : Reached host t
  state : ackedCopies (field event "source_event_id") t = 0 ∨
    Once host (field event "source_event_id") first t
  replied : ∀ x ∈ log, Accepts client (attempts x.1) →
    Reached host x.2 ∧ Once host (field event "source_event_id") first x.2 ∧
      Once host (field event "source_event_id") first t

theorem delivers_elsewhere (digests : HexDigests host.toPython)
    (h : Delivers host event client attempts first log t)
    (step : Elsewhere host (field event "source_event_id") t t') :
    Delivers host event client attempts first log t' where
  run := h.run.next step.step
  state := by
    rcases h.state with none_ | once
    · left
      have less := step.copies_le
      omega
    · exact .inr (once_elsewhere digests h.run step once)
  replied x mem accepts := by
    obtain ⟨run, then_, now_⟩ := h.replied x mem accepts
    exact ⟨run, then_, once_elsewhere digests h.run step now_⟩

/-- A connection after which the event is in order, and so it is if the client accepts the reply. -/
theorem Delivers.connect (h : Delivers host event client attempts first log t) {k : Nat}
    (run : Reached host t')
    (state : ackedCopies (field event "source_event_id") t' = 0 ∨
      Once host (field event "source_event_id") first t')
    (replied : Accepts client (attempts k) → Once host (field event "source_event_id") first t')
    (stays : Once host (field event "source_event_id") first t →
      Once host (field event "source_event_id") first t') :
    Delivers host event client attempts first (log ++ [(k, t')]) t' where
  run := run
  state := state
  replied x mem accepts := by
    rcases List.mem_append.mp mem with mem | last
    · obtain ⟨run, then_, now_⟩ := h.replied x mem accepts
      exact ⟨run, then_, stays now_⟩
    · cases List.mem_singleton.mp last
      exact ⟨run, replied accepts, replied accepts⟩

theorem delivers (docs : Documented host describe) (room : 0 < client.maxDepth)
    (run : Reached host s) (inbound_ : Inbound host event)
    (durable : field event "durability" = .text "durable")
    (fresh : ackedCopies (field event "source_event_id") s = 0)
    (emitting : Emitting host describe event attempts first s log t) :
    Delivers host event client attempts first log t := by
  induction emitting with
  | start => exact ⟨run, .inl fresh, by simp⟩
  | elsewhere before step ih => exact delivers_elsewhere docs.digests ih step
  | @connection log t w body data now eventId served after k chunks before up order near sent framed
      arriving begins serves answered ih =>
    obtain ⟨pages, logged⟩ := logged_reached docs.digests ih.run
    obtain ⟨current, texts, -, tracks, -⟩ := logged.tracks w up
    have tidy : (⟨t.disk, w⟩ : Service).writer.Tidy := tracks.digest docs.digests
    rcases inbound_request framed arriving begins with unread | ⟨rest, read⟩
    · obtain ⟨passed, response, reply, message⟩ := handleConnection_unread unread serves
      have same : connected t now served after = t := by rw [connected, passed]
      rw [same]
      apply ih.connect ih.run ih.state ?_ id
      intro accepts
      rw [reply] at answered
      have legible : ∀ r, response = some r → r.Legible := by
        intro r eq
        rw [message r eq]
        exact unpaired_of_encodable encodable_py
      obtain ⟨r, eq, wrong⟩ := accepted_reply room legible answered accepts
      exact absurd (message r eq) (wrong _)
    rcases connection_read inbound_ sent read serves with
      ⟨response, handled, passed, said, reply⟩ | ⟨fault, handled, passed, said, reply⟩
    · have eq : connected t now served after =
          running after now.date (t.acked ++ acknowledged event response) := by
        rw [connected, passed, said]
        rfl
      rw [eq]
      obtain ⟨state, once⟩ :=
        handled_once docs.digests ih.run up inbound_ durable order near handled ih.state
      have shallow : Shallow event :=
        shallow_loads (ascii_dumps event) (Loads.loads_dumps true inbound_)
      have kept := keeps_handleEvent docs shallow now eventId ⟨t.disk, w⟩ tidy
      rw [handled] at kept
      apply ih.connect (ih.run.next (.answer up inbound_ order handled)) state
      · intro accepts
        rw [reply] at answered
        obtain ⟨r, eq, wrong⟩ := @accepted_reply client (attempts k) room (some response)
          (by simpa using kept.2) answered accepts
        cases eq
        exact once wrong
      · intro before
        apply once_step docs.digests ih.run (.answer up inbound_ order handled) before
        rcases state with none_ | once
        · exact none_ ▸ Nat.zero_le 1
        · exact Nat.le_of_eq once.copy
    · have eq : connected t now served after = running after now.date (t.acked ++ []) := by
        rw [connected, passed, said]
        rfl
      have idle : after = ⟨t.disk, w⟩ := by
        rcases handleEvent_cases tracks.clean tidy inbound_ now eventId with
          ⟨-, -, ran⟩ | ⟨-, -, ran⟩ | ⟨message, -, ran⟩ | ⟨fault, -, ran⟩
        all_goals
          rw [ran] at handled
          cases handled
        rfl
      have next : Reached host (running after now.date (t.acked ++ [])) := by
        rw [List.append_nil]
        exact ih.run.next (.raise up inbound_ order handled)
      have stays (once : Once host (field event "source_event_id") first t) :
          Once host (field event "source_event_id") first
            (running after now.date (t.acked ++ [])) := by
        rw [idle]
        exact once.idle up order
      rw [eq]
      apply ih.connect next (ih.state.imp ?_ stays) ?_ stays
      · intro none_
        rw [ackedCopies, running, List.append_nil]
        exact none_
      · intro accepts
        rw [reply] at answered
        obtain ⟨r, eq, -⟩ :=
          @accepted_reply client (attempts k) room none (by simp) answered accepts
        cases eq

/-- Exactly once: of a durable event that is emitted with a new source_event_id, whatever is lost of
requests and replies, and whether or not the writer is restarted in between, the log has at most one
record; and when emit_durable returns True it has one, which was on disk before the reply that the
client accepted was sent. -/
theorem delivered_once (docs : Documented host describe) (room : 0 < client.maxDepth)
    (run : Reached host s) (inbound_ : Inbound host event)
    (durable : field event "durability" = .text "durable")
    (fresh : ∀ a ∈ s.acked, field a.data "source_event_id" ≠ field event "source_event_id")
    (emitting : Emitting host describe event attempts first s log t)
    (quiet : ∀ k, (∀ x ∈ log, x.1 ≠ k) → (attempts k).reply.flatten = []) :
    copies host.toPython (field event "source_event_id") t.disk ≤ 1 ∧
    ((emitDurable client attempts).outcome = .returned true →
      copies host.toPython (field event "source_event_id") t.disk = 1 ∧
      (verifyPath host.toPython t.disk).status = .valid ∧
      ∃ x ∈ log, Accepts client (attempts x.1) ∧
        copies host.toPython (field event "source_event_id") x.2.disk = 1) := by
  have none_ : ackedCopies (field event "source_event_id") s = 0 := by
    apply List.countP_eq_zero.mpr
    simpa using fresh
  have kept := delivers docs room run inbound_ durable none_ emitting
  constructor
  · have most := @copies_le host t (field event "source_event_id") docs.digests kept.run
    rcases kept.state with zero | once
    · omega
    · exact Nat.le_of_eq (once.copies docs.digests kept.run)
  · intro returned
    obtain ⟨k, accepts⟩ : ∃ k, Accepts client (attempts k) := by
      cases emitDurable_ended client attempts with
      | replied k yes from_ bound retried answered outcome count =>
        rw [outcome] at returned
        cases returned
        exact ⟨k, accepts_iff_answer.mpr answered⟩
      | raised k error from_ bound retried answered uncaught outcome =>
        rw [outcome] at returned
        cases returned
      | hung k from_ bound retried stuck outcome =>
        rw [outcome] at returned
        cases returned
      | exhausted last retried outcome count =>
        rw [outcome] at returned
        cases returned
    have made : ∃ x ∈ log, x.1 = k := by
      by_contra never
      have empty := quiet k fun x mem eq => never ⟨x, mem, eq⟩
      obtain ⟨r, eq, -⟩ := @accepted_reply client (attempts k) room none (by simp)
        (by rw [empty]; exact List.nil_prefix) accepts
      cases eq
    obtain ⟨x, mem, rfl⟩ := made
    obtain ⟨run', then_, now_⟩ := kept.replied x mem accepts
    have one := now_.copies docs.digests kept.run
    refine ⟨one, ?_, x, mem, accepts, then_.copies docs.digests run'⟩
    apply (writer_agrees docs.digests kept.run).1.resolve_right
    intro empty
    rw [verifyPath, classify_empty] at empty
    rw [copies, empty] at one
    cases one

end Once

section Sample

/-- An attempt whose reply never comes. -/
def unanswered : Attempt :=
  { connect := none, drain := .done, reply := [], ending := .silent, closed := true }

def answers (reply : Bytes) : Attempt :=
  { connect := none, drain := .done, reply := [reply], ending := .eof, closed := true }

/-- What a whole request of the sample event comes to. -/
theorem sample_served {body data : Bytes} {rest : Chunks}
    (sent : request (sampleEvent 1 0) = some body) (read : inbound [data] = some (body, rest))
    {t : System} {w : Writer} (run : Reached wireHost t) (up : t.writer = some w) :
    ∃ served after response,
      handleConnection wireHost wireMessage [data] (sampleTime 0) (sampleId 2) ⟨t.disk, w⟩ =
        (served, after) ∧
      handleEvent wireHost (sampleEvent 1 0) (sampleTime 0) (sampleId 2) ⟨t.disk, w⟩ =
        .ok response after ∧
      connected t (sampleTime 0) served after = running after (sampleTime 0).date
        (t.acked ++ acknowledged (sampleEvent 1 0) response) ∧
      served.reply = response.send ∧ (∀ message, response ≠ .error message) ∧
      (field (sampleEvent 1 0) "source_event_id" ∈ w.seenSourceIds →
        response = .duplicate (field (sampleEvent 1 0) "source_event_id")) := by
  have valid : validateEvent wireHost (sampleEvent 1 0) = .ok none := by decide +kernel
  have inbound_ : Inbound wireHost (sampleEvent 1 0) := sample_inbound 1 0
  obtain ⟨pages, log⟩ := logged_reached wire_documented.digests run
  obtain ⟨current, texts, -, tracks, -⟩ := log.tracks w up
  have digest := tracks.digest wire_documented.digests
  have ran := handleEvent_cases tracks.clean digest inbound_ (sampleTime 0) (sampleId 2)
  cases serves : handleConnection wireHost wireMessage [data] (sampleTime 0) (sampleId 2)
    ⟨t.disk, w⟩ with
  | mk served after =>
    rcases connection_read inbound_ sent read serves with
      ⟨response, handled, passed, said, reply⟩ | ⟨fault, handled, -⟩
    · refine ⟨served, after, response, rfl, handled, ?_, reply, ?_⟩
      · rw [connected, passed, said]
        rfl
      · rcases ran with ⟨-, unknown, eq⟩ | ⟨-, -, eq⟩ | ⟨message, refused, -⟩ | ⟨fault, raised, -⟩
        · rw [handled] at eq
          cases eq
          exact ⟨by simp, fun known => absurd known unknown⟩
        · rw [handled] at eq
          cases eq
          exact ⟨by simp, fun _ => rfl⟩
        · rw [valid] at refused
          cases refused
        · rw [valid] at raised
          cases raised
    · rcases ran with ⟨-, -, eq⟩ | ⟨-, -, eq⟩ | ⟨message, refused, -⟩ | ⟨fault, raised, -⟩
      · rw [handled] at eq
        cases eq
      · rw [handled] at eq
        cases eq
      · rw [valid] at refused
        cases refused
      · rw [valid] at raised
        cases raised

theorem duplicate_sent :
    (Response.duplicate (field (sampleEvent 1 0) "source_event_id")).send.isSome = true := by
  decide +kernel

theorem duplicate_accepted {reply : Bytes}
    (send : (Response.duplicate (field (sampleEvent 1 0) "source_event_id")).send = some reply) :
    answer wireHost.toPython (answers reply) = some (.ok true) := by
  have legible : (Response.duplicate (field (sampleEvent 1 0) "source_event_id")).Legible :=
    ⟨_, rfl, unpaired_of_encodable encodable_py⟩
  have connects : (answers reply).connects := ⟨rfl, rfl, rfl⟩
  have arrives : [reply].flatten = reply ++ [] := by simp
  obtain ⟨left_, received, -⟩ :=
    @receive_reply wireHost.toPython (by decide) _ legible reply send [reply] [] arrives .eof
  have read : receive wireHost.toPython ⟨[], (answers reply).reply, (answers reply).ending⟩ =
    .ok (_, left_) := received
  rw [answer, sendAndReceive_connected connects, read]
  rfl

/-- The loop goes on after a timeout to a reply that is accepted. -/
theorem second_attempt {py : Python} {attempts : Nat → Attempt}
    (first : answer py (attempts 0) = some (.error .timeout))
    (second : answer py (attempts 1) = some (.ok true)) :
    (emitDurable py attempts).outcome = .returned true := by
  have stops {j : Nat} (retried : Retried py attempts 0 j) : j ≤ 1 := by
    by_contra later
    obtain ⟨e, eq, -⟩ := retried 1 (Nat.zero_le 1) (by omega)
    rw [second] at eq
    cases eq
  cases emitDurable_ended py attempts with
  | replied j yes from_ bound retried answered outcome count =>
    obtain rfl | rfl : j = 0 ∨ j = 1 := by have := stops retried; omega
    · rw [first] at answered
      cases answered
    · rw [second] at answered
      cases answered
      exact outcome
  | raised j error from_ bound retried answered uncaught outcome =>
    obtain rfl | rfl : j = 0 ∨ j = 1 := by have := stops retried; omega
    · rw [first] at answered
      cases answered
      cases uncaught
    · rw [second] at answered
      cases answered
  | hung j from_ bound retried stuck outcome =>
    have none_ := (answer_hangs py).mpr stuck
    obtain rfl | rfl : j = 0 ∨ j = 1 := by have := stops retried; omega
    · cases first.symm.trans none_
    · cases second.symm.trans none_
  | exhausted last retried outcome count =>
    have := stops retried
    simp [maxRetries] at this

/-- The first reply is lost, the second tells of a duplicate: one record. -/
theorem delivered_once_unanswered : ∃ t, Reached wireHost t ∧
    copies wireHost.toPython (field (sampleEvent 1 0) "source_event_id") t.disk = 1 := by
  obtain ⟨body, data, sent, framed, some_, small⟩ := sample_request
  have arriving : Arriving [data] := by simpa [Arriving] using some_
  have whole : [data].flatten = data ++ [] := by simp
  obtain ⟨rest, read, -⟩ := inbound_whole small framed arriving whole
  have digests := wire_documented.digests
  have inbound_ : Inbound wireHost (sampleEvent 1 0) := sample_inbound 1 0
  have durable : field (sampleEvent 1 0) "durability" = .text "durable" := rfl
  have near : Near (sampleTime 0).date (sampleTime 0).date := .inl rfl
  obtain ⟨pages, holds, begun⟩ :=
    (@Reached.first wireHost (sampleTime 0).date).start digests rfl (day_le_refl _)
  obtain ⟨served, after, response, serves, handled, first, -, fine, -⟩ :=
    sample_served sent read begun rfl
  have once := (handled_once digests begun rfl inbound_ durable (day_le_refl _) near handled
    (.inl rfl)).2 fine
  have run := begun.next (.answer rfl inbound_ (day_le_refl _) handled)
  obtain ⟨served', after', response', serves', handled', second, reply', -, duplicate⟩ :=
    sample_served sent read run rfl
  have known : field (sampleEvent 1 0) "source_event_id" ∈ after.writer.seenSourceIds := by
    rcases once.present.known _ rfl with known | past
    · exact known
    · exact absurd (past _ near) (Nat.lt_irrefl _)
  cases duplicate known
  obtain ⟨reply, send⟩ := Option.isSome_iff_exists.mp duplicate_sent
  rw [send] at reply'
  let attempts (k : Nat) : Attempt := if k = 1 then answers reply else unanswered
  have begins : [data].flatten <+: data := by simp
  have none_ : Emitting wireHost wireMessage (sampleEvent 1 0) attempts (sampleTime 0).date
      ⟨emptyDisk, some (started wireHost.toPython pages (sampleTime 0).date (sampleTime 0).date
        (sampleTime 0).date), (sampleTime 0).date, []⟩ [] _ := .start
  have one := none_.connection 0 [data] rfl (day_le_refl _) near sent framed arriving begins serves
    List.nil_prefix
  rw [first] at one
  have two := one.connection 1 [data] rfl (day_le_refl _) near sent framed arriving begins serves'
    (by simp [attempts, answers, reply'])
  rw [second] at two
  have returned : (emitDurable wireHost.toPython attempts).outcome = .returned true :=
    second_attempt (by rfl) (duplicate_accepted send)
  have room : 0 < wireHost.toPython.maxDepth := by decide
  have run' := (delivers wire_documented room begun inbound_ durable rfl two).run
  have fresh : ∀ a ∈ ([] : List Acked), field a.data "source_event_id" ≠
      field (sampleEvent 1 0) "source_event_id" := by simp
  have records := delivered_once wire_documented room begun inbound_ durable fresh two (by
    intro k never
    have other : k ≠ 1 := by
      intro same
      exact never _ (List.mem_append_right _ (List.mem_singleton_self _)) same.symm
    show (if k = 1 then answers reply else unanswered).reply.flatten = []
    rw [if_neg other]
    rfl)
  exact ⟨_, run', (records.2 returned).1⟩

end Sample

end Drnt.Audit
