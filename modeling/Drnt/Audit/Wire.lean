import Drnt.Audit.Client
import Drnt.Audit.Runs
import Drnt.Lib.Surrogates

/-! A connection to the audit log writer: what is passed on of a request, and what the client
reads of the answer, however the streams are split. -/
namespace Drnt.Audit

open Lib Lib.Framing
open Loads (Shallow Unpaired Plain PlainFields Reads unpaired_of_encodable reads_unpaired
  shallow_loads)

section Connections

def maxMessageSize : Nat := 16 * 1024 * 1024

/-- json.loads(body.decode()) of the writer, which answers only some of the exceptions. -/
inductive Parsed
  | value (v : Json)
  | invalid
  | raised
  deriving DecidableEq

def parseMessage (py : Python) (body : Bytes) : Parsed :=
  match Utf8.decode body with
  | none => .invalid
  | some text =>
    match Loads.loads py text with
    | .ok v => .value v
    | .error .decode => .invalid
    | .error .value | .error .recursion => .raised

/-- json.dumps of an answer raises when the sequence number is too long. -/
def Response.writable : Response → Bool
  | .ack _ _ _ sequence => (Dumps.int sequence).length ≤ Loads.maxStrDigits
  | .error _ | .duplicate _ => true

def Response.send (r : Response) : Option Bytes :=
  if r.writable then (Utf8.encode (Dumps.dumps true (.obj r.toDict))).bind frame else none

/-- What came of a connection: the value that was passed to `_handle_event`, the answer, the bytes
sent for it, and what was left of the stream. -/
structure Served where
  passed : Option Json := none
  response : Option Response := none
  reply : Option Bytes := none
  rest : Chunks := []

def Served.answer (passed : Option Json) (response : Response) (rest : Chunks) : Served :=
  ⟨passed, some response, response.send, rest⟩

variable (host : Host) (describe : Bytes → PyStr)

/-- `describe` is the text of the exception that a body raises. -/
def handleConnection (chunks : Chunks) (now : UtcTime) (eventId : Uuid7) (s : Service) :
    Served × Service :=
  match recvExact 4 [] chunks with
  | none => ({}, s)
  | some (head, rest) =>
    if maxMessageSize < unpack head then
      (.answer none (.error (Lib.py "Message too large")) rest, s)
    else match recvExact (unpack head) [] rest with
      | none => ({}, s)
      | some (body, rest) =>
        match parseMessage host.toPython body with
        | .invalid => (.answer none (.error (Lib.py "Invalid JSON: " ++ describe body)) rest, s)
        | .raised => ({ rest := rest }, s)
        | .value data =>
          match handleEvent host data now eventId s with
          | .ok response s => (.answer (some data) response rest, s)
          | .error _ s => ({ passed := some data, rest := rest }, s)

/-- The bytes of a request; what json.dumps writes is ASCII. -/
def request (event : Json) : Option Bytes := Utf8.encode (Dumps.dumps true event)

/-- The states of a writer that has started and serves connections. -/
inductive Serving : Service → Prop
  | start {d : Disk} {today later begun : Day} {w : Writer}
      (recovered : initialize_ host d today later begun = .ok w) : Serving ⟨d, w⟩
  | connection {s : Service} (chunks : Chunks) (now : UtcTime) (eventId : Uuid7)
      (before : Serving s) : Serving (handleConnection host describe chunks now eventId s).2
  | flush {s s' : Service} (before : Serving s) (flushed : flushBestEffort s = .ok () s' ∨
      ∃ fault, flushBestEffort s = .error fault s') : Serving s'

/-- How str and the digests of the interpreter behave: the str of a text is that text, and what
is printed of other values and of exceptions has no surrogates. -/
structure Documented : Prop where
  digests : HexDigests host.toPython
  str_text : ∀ s, host.str (.str s) = s
  str_other : ∀ v, isStr v = false → Utf8.encodable (host.str v) = true
  described : ∀ body, Utf8.encodable (describe body) = true

end Connections

section Requests

theorem encode_of_encodable {s : PyStr} (h : Utf8.encodable s = true) : ∃ b, Utf8.encode s = some b :=
  ⟨_, if_pos h⟩

theorem encodable_append {a b : PyStr} (ha : Utf8.encodable a = true) (hb : Utf8.encodable b = true) :
    Utf8.encodable (a ++ b) = true := by
  rw [Utf8.encodable, List.all_append]
  exact (Bool.and_eq_true _ _).mpr ⟨ha, hb⟩

theorem encodable_cons {c : CodePoint} {s : PyStr} (hc : Utf8.isSurrogate c.val = false)
    (hs : Utf8.encodable s = true) : Utf8.encodable (c :: s) = true := by
  rw [Utf8.encodable, List.all_cons, hc]
  exact hs

theorem ascii_char (c : CodePoint) : Utf8.encodable (Dumps.char true c) = true := by
  by_cases plain : Utf8.isSurrogate c.val = false
  · exact Loads.encodable_of_clean (Loads.clean_char plain)
  · have surrogate : 0xD800 ≤ c.val ∧ c.val < 0xE000 := by
      rw [Utf8.not_surrogate_iff] at plain
      omega
    have clean := Loads.encodable_of_clean (Loads.clean_escapeUnit c.val)
    cases Loads.written true c with
    | short d eq value other range =>
      have small := Loads.escaped_small value
      omega
    | number eq low =>
      rw [eq]
      exact clean
    | direct eq quote slash control =>
      have small := Loads.direct_small eq
      omega
    | pair eq high => omega

theorem ascii_text (s : PyStr) : Utf8.encodable (Dumps.text true s) = true := by
  have inner : Utf8.encodable (s.flatMap (Dumps.char true)) = true := by
    induction s with
    | nil => rfl
    | cons c s ih => exact encodable_append (ascii_char c) ih
  exact encodable_append (encodable_cons rfl inner) rfl

mutual

/-- With ensure_ascii, whatever is written can be encoded. -/
theorem ascii_dumps : ∀ v : Json, Utf8.encodable (Dumps.dumps true v) = true
  | .null => rfl
  | .bool true => rfl
  | .bool false => rfl
  | .int n => Loads.encodable_of_clean (Loads.clean_int n)
  | .float x => encodable_py
  | .str s => ascii_text s
  | .arr [] => rfl
  | .arr (x :: xs) => by
    rw [Dumps.dumps]
    exact encodable_append (encodable_cons rfl (ascii_dumps x)) (ascii_items xs)
  | .obj [] => rfl
  | .obj ((k, v) :: fields) => by
    rw [Dumps.dumps]
    exact encodable_append (encodable_append (encodable_cons rfl (ascii_text k))
      (encodable_cons rfl (ascii_dumps v))) (ascii_fields fields)

theorem ascii_items : ∀ xs : List Json, Utf8.encodable (Dumps.dumpsItems true xs) = true
  | [] => rfl
  | x :: xs => by
    rw [Dumps.dumpsItems]
    exact encodable_append (encodable_cons rfl (ascii_dumps x)) (ascii_items xs)

theorem ascii_fields : ∀ fields : List (PyStr × Json),
    Utf8.encodable (Dumps.dumpsFields true fields) = true
  | [] => rfl
  | (k, v) :: fields => by
    rw [Dumps.dumpsFields]
    exact encodable_append (encodable_append (encodable_cons rfl (ascii_text k))
      (encodable_cons rfl (ascii_dumps v))) (ascii_fields fields)

end

/-- Of a stream that begins with `a`, those bytes are read and no others. -/
theorem recvExact_whole {a b : Bytes} {chunks : Chunks} (arriving : Arriving chunks)
    (h : chunks.flatten = a ++ b) :
    ∃ rest, recvExact a.length [] chunks = some (a, rest) ∧ rest.flatten = b ∧ Arriving rest := by
  have spec := @recvExact_spec a.length [] chunks arriving (Nat.zero_le _)
  rw [if_pos (by rw [h, List.length_append]; simp)] at spec
  obtain ⟨rest, read, left, arriving⟩ := spec
  rw [List.nil_append, h] at read left
  rw [List.take_left] at read
  rw [List.drop_left] at left
  exact ⟨rest, read, left, arriving⟩

theorem recvExact_short {n : Nat} {chunks : Chunks} (arriving : Arriving chunks)
    (h : chunks.flatten.length < n) : recvExact n [] chunks = none := by
  have spec := @recvExact_spec n [] chunks arriving (Nat.zero_le _)
  rwa [if_neg (by simpa using h)] at spec

end Requests

section Messages

variable {host : Host} {describe : Bytes → PyStr} {data : String → Json} {m : PyStr}
variable {x : Except Raised (Option PyStr)}

/-- A message that is returned reads back as it is written. -/
def Legible (x : Except Raised (Option PyStr)) : Prop := ∀ m, x = .ok (some m) → Unpaired m

theorem Legible.silent : Legible (pure none) := nofun

theorem Legible.told (h : Unpaired m) : Legible (pure (some m)) := by
  rintro _ ⟨⟩
  exact h

theorem Legible.check {c : Prop} [Decidable c] (hm : Unpaired m) (hx : Legible x) :
    Legible (if c then pure (some m) else x) := by
  by_cases h : c
  · rw [if_pos h]
    exact .told hm
  · rwa [if_neg h]

theorem Legible.among {r : Except Raised Bool} (hm : Unpaired m) (hx : Legible x) :
    Legible (r >>= fun found => if (!found) = true then pure (some m) else x) := by
  match r with
  | .error fault => exact nofun
  | .ok true => exact hx
  | .ok false => exact .told hm

/-- A value that has been read, between two fixed texts. -/
theorem legible_str (docs : Documented host describe) {v : Json} (plain : Plain v) (a b : String) :
    Unpaired (Lib.py a ++ host.str v ++ Lib.py b) := by
  have printed : Unpaired (host.str v) := by
    cases v with
    | str s =>
      rw [docs.str_text]
      exact plain s rfl
    | _ => exact unpaired_of_encodable (docs.str_other _ rfl)
  exact ((unpaired_of_encodable encodable_py).append printed (.inl encodable_py)).append
    (unpaired_of_encodable encodable_py) (.inr encodable_py)

theorem legible_validateFields (docs : Documented host describe) (plain : ∀ name, Plain (data name)) :
    Legible (validateFields host data) := by
  have fixed (s : String) : Unpaired (Lib.py s) := unpaired_of_encodable encodable_py
  have quoted (v : Json) (plain : Plain v) (a b : String) := legible_str docs plain a b
  unfold validateFields
  refine .check (quoted _ (plain _) ..) ?_
  refine .check (fixed _) ?_
  cases data "timestamp" with
  | str s =>
    refine .check (fixed _) ?_
    refine .check (fixed _) ?_
    refine .among (quoted _ (plain _) ..) ?_
    refine .among (quoted _ (plain _) ..) ?_
    refine .check (fixed _) ?_
    refine .check (fixed _) ?_
    refine .check (fixed _) ?_
    refine .check (fixed _) ?_
    cases data "wal_level" with
    | null => exact .silent
    | int n => exact .check (fixed _) .silent
    | _ => exact .told (fixed _)
  | _ => exact .told (fixed _)

theorem plain_field {fields : List (PyStr × Json)} (plain : PlainFields fields) (k : PyStr) :
    Plain ((Json.field? k fields).getD .null) := by
  induction fields with
  | nil => exact nofun
  | cons f fields ih =>
    obtain ⟨l, v⟩ := f
    obtain ⟨first, rest⟩ := List.forall_mem_cons.mp plain
    rw [Json.field?]
    split
    · exact first
    · exact ih rest

theorem legible_validateEvent (docs : Documented host describe) {v : Json} (shallow : Shallow v) :
    Legible (validateEvent host v) := by
  have fixed (s : String) : Unpaired (Lib.py s) := unpaired_of_encodable encodable_py
  cases v with
  | obj fields =>
    rw [validateEvent]
    split
    · exact .told (fixed _)
    · exact legible_validateFields docs fun name => plain_field (shallow.fields fields rfl) _
  | _ => exact .told (fixed _)

end Messages

section Steps

variable {α β : Type} {P : Writer → Prop}

/-- The writer's memory keeps `P`, also when an exception is raised, and the value has `Q`. -/
def Act.Keeps (P : Writer → Prop) (x : Act α) (Q : α → Prop) : Prop :=
  ∀ s : Service, P s.writer →
    match x s with
    | .ok a s' => P s'.writer ∧ Q a
    | .error _ s' => P s'.writer

theorem Act.Keeps.pure {Q : α → Prop} {a : α} (h : Q a) : Act.Keeps P (pure a : Act α) Q :=
  fun _ hs => ⟨hs, h⟩

theorem Act.Keeps.throw {Q : α → Prop} (fault : Raised) : Act.Keeps P (throw fault : Act α) Q :=
  fun _ hs => hs

theorem Act.Keeps.get : Act.Keeps P (get : Act Service) fun s => P s.writer := fun _ hs => ⟨hs, hs⟩

theorem Act.Keeps.modify {f : Service → Service} (h : ∀ s, P s.writer → P (f s).writer) :
    Act.Keeps P (modify f : Act PUnit) fun _ => True := fun s hs => ⟨h s hs, trivial⟩

theorem Act.Keeps.bind {x : Act α} {f : α → Act β} {R : α → Prop} {Q : β → Prop}
    (hx : Act.Keeps P x R) (hf : ∀ a, R a → Act.Keeps P (f a) Q) : Act.Keeps P (x >>= f) Q := by
  intro s hs
  have first := hx s hs
  cases ran : x s with
  | ok a s' =>
    rw [ran] at first
    have next := hf a first.2 s' first.1
    rwa [bind_ok ran]
  | error fault s' =>
    rw [ran] at first
    have raised : (x >>= f) s = .error fault s' := by
      change EStateM.bind x f s = _
      rw [EStateM.bind, ran]
    rwa [raised]

end Steps

section Digests

variable {host : Host} {describe : Bytes → PyStr}

/-- The writer's tip can be encoded. -/
def Writer.Tidy (w : Writer) : Prop := Utf8.encodable w.prevHash = true

theorem keeps_appendLine (date : String) (line : PyStr) :
    Act.Keeps Writer.Tidy (appendLine date line) fun _ => True := by
  unfold appendLine
  refine .bind (.modify fun _ hs => hs) fun _ _ => ?_
  split
  · exact .throw _
  · exact .modify fun _ hs => hs

theorem keeps_appendLines (lines : List (String × PyStr)) :
    Act.Keeps Writer.Tidy (appendLines lines) fun _ => True := by
  induction lines with
  | nil => exact .pure trivial
  | cons x lines ih => exact .bind (keeps_appendLine _ _) fun _ _ => ih

theorem keeps_flush : Act.Keeps Writer.Tidy flushBestEffort fun _ => True :=
  .bind .get fun _ _ =>
    .bind (keeps_appendLines _) fun _ _ => .modify fun _ hs => hs

theorem keeps_commitEvent (data : String → Json) (now : UtcTime) (eventId : Uuid7) :
    Act.Keeps Writer.Tidy (commitEvent data now eventId)
      fun e => Utf8.encodable e.prevHash = true := by
  have rest : Act.Keeps Writer.Tidy (do
      modify fun s => { s with writer.currentDate := now.date.text }
      return committedEvent data eventId now.isoformat (← get).writer.prevHash)
      fun e => Utf8.encodable e.prevHash = true :=
    .bind (.modify fun _ hs => hs) fun _ _ =>
      .bind .get fun _ hs => .pure hs
  refine .bind .get fun s _ => ?_
  dsimp only
  split
  · exact .bind keeps_flush fun _ _ => rest
  · exact rest

theorem keeps_writeEvent (digests : HexDigests host.toPython) (e : CommittedEvent) :
    Act.Keeps Writer.Tidy (writeEvent host e) fun _ => True := by
  unfold writeEvent
  dsimp only
  split
  · refine .bind keeps_flush fun _ _ => .bind (keeps_appendLine _ _) fun _ _ => ?_
    split
    · exact .throw _
    · exact .modify fun _ _ => digests.encodable _
  · refine .bind (.modify fun _ hs => hs) fun _ _ => ?_
    split
    · exact .throw _
    · exact .modify fun _ _ => digests.encodable _

/-- An answer whose texts read back as they are written. -/
def Response.Legible : Response → Prop
  | .ack _ _ prevHash _ => Utf8.encodable prevHash = true
  | .error message => Unpaired message
  | .duplicate id => ∃ s, id = .str s ∧ Unpaired s

theorem keeps_handleEvent (docs : Documented host describe) {data : Json} (shallow : Shallow data)
    (now : UtcTime) (eventId : Uuid7) :
    Act.Keeps Writer.Tidy (handleEvent host data now eventId) Response.Legible := by
  unfold handleEvent
  cases validated : validateEvent host data with
  | error fault => exact .throw _
  | ok message =>
    cases message with
    | some message => exact .pure (legible_validateEvent docs shallow message validated)
    | none =>
      have id : ∃ s, field data "source_event_id" = .str s ∧ Unpaired s := by
        obtain ⟨fields, rfl, -, accepted⟩ := validateEvent_none.mp validated
        obtain ⟨s, eq⟩ : ∃ s, field (.obj fields) "source_event_id" = .str s := by
          have uuid := accepted.sourceEventId
          unfold isUuid at uuid
          split at uuid
          · exact ⟨_, by assumption⟩
          · cases uuid
        exact ⟨s, eq, plain_field (shallow.fields fields rfl) _ s eq⟩
      refine .bind .get fun s _ => ?_
      split
      · exact .pure id
      · exact .bind (keeps_commitEvent _ _ _) fun e he =>
          .bind (keeps_writeEvent docs.digests e) fun _ _ =>
            .bind .get fun _ _ => .pure he

end Digests

section Serving

variable {host : Host} {describe : Bytes → PyStr} {s : Service} {chunks rest : Chunks}

theorem recoverLines_encodable {py : Python} (digests : HexDigests py) {texts : List PyStr}
    {c c' : ChainState} (start : Utf8.encodable c.prevHash = true)
    (h : recoverLines py c texts = .ok c') : Utf8.encodable c'.prevHash = true := by
  induction texts generalizing c with
  | nil =>
    cases h
    exact start
  | cons line texts ih =>
    rw [recoverLines] at h
    split at h
    · exact ih start h
    split at h
    · exact ih start h
    · cases h
    · cases h
    · dsimp only at h
      split at h
      · exact ih (digests.encodable _) h
      · cases h
    · cases h

theorem recoverFiles_encodable {py : Python} (digests : HexDigests py) {d : Disk} {days : List Day}
    {c c' : ChainState} (start : Utf8.encodable c.prevHash = true)
    (h : recoverFiles py d c days = .ok c') : Utf8.encodable c'.prevHash = true := by
  induction days generalizing c with
  | nil =>
    cases h
    exact start
  | cons day days ih =>
    rw [recoverFiles] at h
    split at h
    · exact ih start h
    split at h
    · cases h
    · rename_i data _ lines _
      cases recovered : recoverLines py c lines with
      | error fault =>
        rw [recovered] at h
        cases h
      | ok c₁ =>
        rw [recovered] at h
        exact ih (recoverLines_encodable digests start recovered) h

theorem initialize_tidy {d : Disk} {today later begun : Day} {w : Writer}
    (digests : HexDigests host.toPython) (h : initialize_ host d today later begun = .ok w) :
    w.Tidy := by
  unfold initialize_ at h
  cases recovered : recoverChainState host.toPython d today later with
  | error fault =>
    rw [recovered] at h
    cases h
  | ok c =>
    rw [recovered] at h
    cases h
    exact recoverFiles_encodable digests (digests.encodable _) recovered

/-- The message of a request that has arrived, and what came after it. -/
def inbound (chunks : Chunks) : Option (Bytes × Chunks) :=
  (recvExact 4 [] chunks).bind fun (head, rest) =>
    if maxMessageSize < unpack head then none else recvExact (unpack head) [] rest

/-- A connection whose message is read. -/
theorem handleConnection_inbound {body : Bytes} (h : inbound chunks = some (body, rest))
    (now : UtcTime) (eventId : Uuid7) (s : Service) :
    handleConnection host describe chunks now eventId s =
      match parseMessage host.toPython body with
      | .invalid => (.answer none (.error (Lib.py "Invalid JSON: " ++ describe body)) rest, s)
      | .raised => ({ rest := rest }, s)
      | .value data =>
        match handleEvent host data now eventId s with
        | .ok response s => (.answer (some data) response rest, s)
        | .error _ s => ({ passed := some data, rest := rest }, s) := by
  unfold inbound at h
  obtain ⟨⟨head, more⟩, read, h⟩ := Option.bind_eq_some_iff.mp h
  dsimp only at h
  split at h
  · cases h
  · rename_i small
    rw [handleConnection, read]
    dsimp only
    rw [if_neg small, h]

/-- A connection that is not: nothing is passed on. -/
theorem handleConnection_none (h : inbound chunks = none) (now : UtcTime) (eventId : Uuid7)
    (s : Service) : (handleConnection host describe chunks now eventId s).1.passed = none ∧
      (handleConnection host describe chunks now eventId s).2 = s := by
  unfold inbound at h
  unfold handleConnection
  cases read : recvExact 4 [] chunks with
  | none => exact ⟨rfl, rfl⟩
  | some x =>
    obtain ⟨head, more⟩ := x
    rw [read] at h
    change (if maxMessageSize < unpack head then none else _) = none at h
    dsimp only
    split
    · exact ⟨rfl, rfl⟩
    · rename_i small
      rw [if_neg small] at h
      rw [h]
      exact ⟨rfl, rfl⟩

theorem parseMessage_value {py : Python} {body : Bytes} {v : Json}
    (h : parseMessage py body = .value v) :
    ∃ text, Utf8.decode body = some text ∧ Loads.loads py text = .ok v := by
  unfold parseMessage at h
  split at h
  · cases h
  · split at h
    · cases h
      exact ⟨_, by assumption, by assumption⟩
    · cases h
    · cases h
    · cases h

theorem encodable_of_decode {body : Bytes} {text : PyStr} (h : Utf8.decode body = some text) :
    Utf8.encodable text = true := by
  have encoded := Utf8.decode_iff.mp h
  unfold Utf8.encode at encoded
  split at encoded
  · assumption
  · cases encoded

/-- A connection keeps the tip, and what it answers to a message reads back. -/
theorem keeps_connection (docs : Documented host describe) (tidy : s.writer.Tidy) (chunks : Chunks)
    (now : UtcTime) (eventId : Uuid7) :
    (handleConnection host describe chunks now eventId s).2.writer.Tidy ∧
      ∀ response, (handleConnection host describe chunks now eventId s).1.response = some response →
        response.Legible ∨ inbound chunks = none := by
  cases read : inbound chunks with
  | none =>
    rw [(handleConnection_none read now eventId s).2]
    exact ⟨tidy, fun _ _ => .inr rfl⟩
  | some x =>
    obtain ⟨body, rest⟩ := x
    rw [handleConnection_inbound read]
    cases parsed : parseMessage host.toPython body with
    | invalid =>
      refine ⟨tidy, ?_⟩
      rintro _ ⟨⟩
      exact .inl (unpaired_of_encodable (encodable_append encodable_py (docs.described body)))
    | raised => exact ⟨tidy, (by simp)⟩
    | value data =>
      obtain ⟨text, decoded, loaded⟩ := parseMessage_value parsed
      have shallow := shallow_loads (encodable_of_decode decoded) loaded
      have kept := keeps_handleEvent docs shallow now eventId s tidy
      dsimp only
      cases ran : handleEvent host data now eventId s with
      | ok response s' =>
        rw [ran] at kept
        refine ⟨kept.1, ?_⟩
        rintro _ ⟨⟩
        exact .inl kept.2
      | error fault s' =>
        rw [ran] at kept
        exact ⟨kept, (by simp)⟩

theorem Serving.tidy (docs : Documented host describe) (h : Serving host describe s) :
    s.writer.Tidy := by
  induction h with
  | start recovered => exact initialize_tidy docs.digests recovered
  | connection chunks now eventId _ ih => exact (keeps_connection docs ih chunks now eventId).1
  | flush _ flushed ih =>
    rename_i s _ _
    have kept := keeps_flush s ih
    rcases flushed with ran | ⟨fault, ran⟩
    · rw [ran] at kept
      exact kept.1
    · rw [ran] at kept
      exact kept

end Serving

section Answers

variable {py : Python}

theorem reads_text {stack : List Loads.Frame} (s : String) : Reads py true (.text s) stack :=
  reads_unpaired (unpaired_of_encodable encodable_py)

theorem short_of_int {n : Nat} (h : (Dumps.int n).length ≤ Loads.maxStrDigits)
    {stack : List Loads.Frame} : Reads py true (.nat n) stack := by
  rw [Loads.int_nonneg] at h
  exact Loads.reads_int (n := (n : Int)) h

theorem Response.reads (room : 0 < py.maxDepth) {r : Response} (legible : r.Legible)
    (writable : r.writable = true) :
    Loads.loads py (Dumps.dumps true (.obj r.toDict)) = .ok (.obj r.toDict) := by
  have key (s : String) : Utf8.encodable (Lib.py s) = true := encodable_py
  cases r with
  | ack eventId committedAt prevHash sequence =>
    have short : (Dumps.int sequence).length ≤ Loads.maxStrDigits := of_decide_eq_true writable
    have distinct : (["status", "event_id", "committed_at", "prev_hash",
      "sequence"].map Lib.py).Nodup := by decide
    refine Loads.loads_dumps_obj room distinct ?_
    simp only [toDict, List.forall_mem_cons, key, true_and]
    exact ⟨fun _ => reads_text _, fun _ => reads_text _, fun _ => reads_text _,
      fun _ => reads_unpaired (unpaired_of_encodable legible), fun _ => short_of_int short, nofun⟩
  | error message =>
    have distinct : (["status", "message"].map Lib.py).Nodup := by decide
    refine Loads.loads_dumps_obj room distinct ?_
    simp only [toDict, List.forall_mem_cons, key, true_and]
    exact ⟨fun _ => reads_text _, fun _ => reads_unpaired legible, nofun⟩
  | duplicate id =>
    obtain ⟨s, rfl, unpaired⟩ := legible
    have distinct : (["status", "source_event_id"].map Lib.py).Nodup := by decide
    refine Loads.loads_dumps_obj room distinct ?_
    simp only [toDict, List.forall_mem_cons, key, true_and]
    exact ⟨fun _ => reads_text _, fun _ => reads_unpaired unpaired, nofun⟩

theorem Response.send_fits (r : Response) (writable : r.writable = true) :
    ∃ body, request (.obj r.toDict) = some body ∧
      (body.length < 2 ^ 32 → ∃ reply, frame body = some reply ∧ r.send = some reply) := by
  obtain ⟨body, encoded⟩ := encode_of_encodable (ascii_dumps (.obj r.toDict))
  refine ⟨body, encoded, fun fits => ?_⟩
  obtain ⟨head, packed, -⟩ := pack_spec fits
  have framed : frame body = some (head ++ body) := by
    rw [frame, packed]
    rfl
  refine ⟨head ++ body, framed, ?_⟩
  rw [send, if_pos writable, encoded]
  exact framed

/-- What a client reads of an answer that was sent, and what it leaves on the stream. -/
theorem receive_reply (room : 0 < py.maxDepth) {r : Response} (legible : r.Legible) {reply : Bytes}
    (sent : r.send = some reply) {chunks : Chunks} {extra : Bytes}
    (arrives : chunks.flatten = reply ++ extra) (ending : Ending) :
    ∃ left : Reader, receive py ⟨[], chunks, ending⟩ = .ok (.obj r.toDict, left) ∧
      left.all = extra := by
  unfold Response.send at sent
  split at sent
  · rename_i writable
    obtain ⟨body, encoded, framed⟩ := Option.bind_eq_some_iff.mp sent
    obtain ⟨head, rfl, length, value⟩ := frame_some framed
    have all : (Reader.all ⟨[], chunks, ending⟩) = head ++ (body ++ extra) := by
      show [] ++ chunks.flatten = _
      rw [List.nil_append, arrives, List.append_assoc]
    have first : (Reader.all ⟨[], chunks, ending⟩).take 4 = head := by
      rw [all, ← length, List.take_left]
    have behind : (Reader.all ⟨[], chunks, ending⟩).drop 4 = body ++ extra := by
      rw [all, ← length, List.drop_left]
    have parsed : parseReply py body = .ok (.obj r.toDict) := by
      rw [parseReply, Utf8.decode_of_encode encoded]
      dsimp only
      rw [r.reads room legible writable]
      rfl
    obtain ⟨left, read, rest⟩ := receive_whole py (r := ⟨[], chunks, ending⟩)
      (by rw [all, List.length_append]; omega)
      (by rw [first, behind, value, List.length_append]; omega)
    rw [first, behind, value] at read rest
    rw [List.take_left, parsed] at read
    rw [List.drop_left] at rest
    exact ⟨left, read, rest⟩
  · cases sent

end Answers

section Exchange

variable {host : Host} {describe : Bytes → PyStr}

/-- A connection on which a whole request has come, and more bytes after it: what is passed on is
what json.loads reads, the other bytes are left, an answer that json.dumps writes and whose length
fits the prefix is sent, and a client reads the answer that was sent, from whatever chunks. -/
structure Exchanged (py client : Python) (event : Json) (extra : Bytes) (served : Served) : Prop where
  passed : served.passed = (Loads.loads py (Dumps.dumps true event)).toOption
  consumed : served.rest.flatten = extra
  sent : served.reply = served.response.bind Response.send
  answered : ∀ response, served.response = some response → response.writable = true →
    ∃ body, request (.obj response.toDict) = some body ∧
      (body.length < 2 ^ 32 → ∃ reply, frame body = some reply ∧ served.reply = some reply)
  returned : ∀ response reply, served.response = some response → served.reply = some reply →
    ∀ a : Attempt, a.connects → ∀ more, a.reply.flatten = reply ++ more →
      sendAndReceive client a = some (.ok (.obj response.toDict)) ∧
      ∃ left : Reader, receive client ⟨[], a.reply, a.ending⟩ = .ok (.obj response.toDict, left) ∧
        left.all = more

theorem inbound_whole {body data extra : Bytes} {chunks : Chunks}
    (small : body.length ≤ maxMessageSize) (framed : frame body = some data)
    (arriving : Arriving chunks) (arrives : chunks.flatten = data ++ extra) :
    ∃ rest, inbound chunks = some (body, rest) ∧ rest.flatten = extra := by
  obtain ⟨head, rfl, length, value⟩ := frame_some framed
  rw [List.append_assoc] at arrives
  obtain ⟨more, read, left, arriving⟩ := recvExact_whole arriving arrives
  obtain ⟨rest, read', left', -⟩ := recvExact_whole arriving left
  refine ⟨rest, ?_, left'⟩
  rw [length] at read
  rw [inbound, read]
  show (if maxMessageSize < unpack head then none else recvExact (unpack head) [] more) = _
  rw [value, if_neg (by omega), read']

theorem inbound_short {body data : Bytes} {chunks : Chunks} (framed : frame body = some data)
    (arriving : Arriving chunks) (begins : chunks.flatten <+: data)
    (short : chunks.flatten.length < data.length) : inbound chunks = none := by
  obtain ⟨head, rfl, length, value⟩ := frame_some framed
  rw [List.length_append] at short
  by_cases first : chunks.flatten.length < 4
  · rw [inbound, recvExact_short arriving first]
    rfl
  · -- the length has come, so what is missing is missing of the body
    obtain ⟨missing, eq⟩ := begins
    have split_ : chunks.flatten = head ++ chunks.flatten.drop 4 := by
      have same := congrArg (List.take 4) eq
      rw [List.take_append_of_le_length (by omega), List.take_append_of_le_length (by omega),
        List.take_of_length_le (by omega : head.length ≤ 4)] at same
      rw [← same, List.take_append_drop]
    obtain ⟨more, read, left, arriving⟩ := recvExact_whole arriving split_
    rw [length] at read
    rw [inbound, read]
    show (if maxMessageSize < unpack head then none else recvExact (unpack head) [] more) = _
    have lacks : more.flatten.length < unpack head := by
      rw [left, List.length_drop, value]
      omega
    rw [recvExact_short arriving lacks]
    split <;> rfl

theorem exchanged (docs : Documented host describe) {client : Python} (room : 0 < client.maxDepth)
    {s : Service} (serving : Serving host describe s) {event : Json} {body data extra : Bytes}
    (encoded : request event = some body) (small : body.length ≤ maxMessageSize)
    (framed : frame body = some data) {chunks : Chunks} (arriving : Arriving chunks)
    (arrives : chunks.flatten = data ++ extra) (now : UtcTime) (eventId : Uuid7) :
    Exchanged host.toPython client event extra
      (handleConnection host describe chunks now eventId s).1 := by
  obtain ⟨rest, read, left⟩ := inbound_whole small framed arriving arrives
  have legible {response : Response}
      (h : (handleConnection host describe chunks now eventId s).1.response = some response) :
      response.Legible := by
    have kept := (keeps_connection docs (serving.tidy docs) chunks now eventId).2 response h
    rcases kept with yes | none_
    · exact yes
    · cases read.symm.trans none_
  have returned (response : Response) (reply : Bytes)
      (h : (handleConnection host describe chunks now eventId s).1.response = some response)
      (sent : response.send = some reply) (a : Attempt) (connects : a.connects) (more : Bytes)
      (arrives : a.reply.flatten = reply ++ more) :
      sendAndReceive client a = some (.ok (.obj response.toDict)) ∧
      ∃ left : Reader, receive client ⟨[], a.reply, a.ending⟩ = .ok (.obj response.toDict, left) ∧
        left.all = more := by
    obtain ⟨left, received, behind⟩ := receive_reply room (legible h) sent arrives a.ending
    refine ⟨?_, left, received, behind⟩
    rw [sendAndReceive_connected connects, received]
    rfl
  have decoded : Utf8.decode body = some (Dumps.dumps true event) := Utf8.decode_of_encode encoded
  have answers : (handleConnection host describe chunks now eventId s).1.passed =
        (Loads.loads host.toPython (Dumps.dumps true event)).toOption ∧
      (handleConnection host describe chunks now eventId s).1.rest = rest ∧
      (handleConnection host describe chunks now eventId s).1.reply =
        (handleConnection host describe chunks now eventId s).1.response.bind Response.send := by
    rw [handleConnection_inbound read]
    have parsed : parseMessage host.toPython body =
        match Loads.loads host.toPython (Dumps.dumps true event) with
        | .ok v => .value v
        | .error .decode => .invalid
        | .error .value | .error .recursion => .raised := by
      rw [parseMessage, decoded]
    rw [parsed]
    cases Loads.loads host.toPython (Dumps.dumps true event) with
    | error fault => cases fault <;> exact ⟨rfl, rfl, rfl⟩
    | ok v =>
      dsimp only
      cases handleEvent host v now eventId s <;> exact ⟨rfl, rfl, rfl⟩
  obtain ⟨passed, stays, sent⟩ := answers
  refine ⟨passed, by rw [stays]; exact left, sent, fun response h writable => ?_, ?_⟩
  · rw [sent, h]
    exact response.send_fits writable
  intro response reply h replied
  rw [sent, h] at replied
  exact returned response reply h replied

/-- A framed event arrives as json.dumps wrote it, and the answer comes back as the writer gave it,
however the streams are split; of a request that is cut off nothing is passed on. -/
theorem framing_exact (docs : Documented host describe) {client : Python} (room : 0 < client.maxDepth)
    {s : Service} (serving : Serving host describe s) (event : Json) (now : UtcTime)
    (eventId : Uuid7) : ∃ body, request event = some body ∧ (body.length ≤ maxMessageSize →
      ∃ data, frame body = some data ∧
        (∀ chunks extra, Arriving chunks → chunks.flatten = data ++ extra →
          Exchanged host.toPython client event extra
            (handleConnection host describe chunks now eventId s).1) ∧
        ∀ chunks, Arriving chunks → chunks.flatten <+: data → chunks.flatten.length < data.length →
          (handleConnection host describe chunks now eventId s).1.passed = none) := by
  obtain ⟨body, encoded⟩ := encode_of_encodable (ascii_dumps event)
  refine ⟨body, encoded, fun small => ?_⟩
  have fits : maxMessageSize < 2 ^ 32 := by decide
  obtain ⟨head, packed, -⟩ := pack_spec (Nat.lt_of_le_of_lt small fits)
  have framed : frame body = some (head ++ body) := by
    rw [frame, packed]
    rfl
  refine ⟨head ++ body, framed, fun chunks extra arriving arrives => ?_,
    fun chunks arriving begins short => ?_⟩
  · exact exchanged docs room serving encoded small framed arriving arrives now eventId
  · exact (handleConnection_none (inbound_short framed arriving begins short) now eventId s).1

end Exchange

section Sample

/-- The str of texts, and the message of a body without a value. -/
def wireHost : Host := { sampleHost with str := fun v => if let .str s := v then s else [] }

def wireMessage (_ : Bytes) : PyStr := Lib.py "Expecting value: line 1 column 1 (char 0)"

theorem wire_documented : Documented wireHost wireMessage where
  digests := sample_digests
  str_text _ := rfl
  str_other v other := by
    cases v with
    | str s => cases other
    | _ => rfl
  described _ := encodable_py

theorem sample_request : ∃ body data, request (sampleEvent 1 0) = some body ∧
    frame body = some data ∧ data ≠ [] ∧ body.length ≤ maxMessageSize := by
  obtain ⟨body, encoded⟩ := encode_of_encodable (ascii_dumps (sampleEvent 1 0))
  have small : body.length ≤ maxMessageSize := by
    have length : (request (sampleEvent 1 0)).all (fun b => b.length ≤ 1000) = true := by
      decide +kernel
    rw [request, encoded] at length
    have : body.length ≤ 1000 := by simpa using length
    exact Nat.le_trans this (by decide)
  have fits : maxMessageSize < 2 ^ 32 := by decide
  obtain ⟨head, packed, length, -⟩ := pack_spec (Nat.lt_of_le_of_lt small fits)
  refine ⟨body, head ++ body, encoded, by rw [frame, packed]; rfl, ?_, small⟩
  intro empty
  have none_ := congrArg List.length empty
  rw [List.length_append, length] at none_
  simp at none_

/-- The writer that a client first meets acknowledges the sample event. -/
theorem sample_acked {chunks rest : Chunks} {body : Bytes}
    (sent : request (sampleEvent 1 0) = some body) (read : inbound chunks = some (body, rest)) :
    ∃ s, Serving wireHost wireMessage s ∧
      (handleConnection wireHost wireMessage chunks (sampleTime 0) (sampleId 2) s).1.response =
        some (.ack (sampleId 2) (sampleTime 0).isoformat s.writer.prevHash 1) ∧
      s.writer.prevHash = Lib.py genesisDigest := by
  have kept : Kept wireHost.toPython [] := ⟨.nil, nofun, nofun⟩
  have holds : emptyDisk.Holds [] := rfl
  have begun := initialize_pages holds kept (sampleTime 0).date (sampleTime 0).date
    (sampleTime 0).date
  rw [started_nil] at begun
  have valid : validateEvent wireHost (sampleEvent 1 0) = .ok none := by decide +kernel
  have inbound_ : Inbound wireHost (sampleEvent 1 0) := sample_inbound 1 0
  have parsed : parseMessage wireHost.toPython body = .value (sampleEvent 1 0) := by
    rw [parseMessage, Utf8.decode_of_encode sent]
    dsimp only
    rw [Loads.loads_dumps true inbound_]
  refine ⟨_, .start begun, ?_, rfl⟩
  rw [handleConnection_inbound read, parsed]
  have digest : Utf8.encodable (genesisHash wireHost.toPython) = true := encodable_py
  rcases handleEvent_cases (s := ⟨emptyDisk, ⟨genesisHash wireHost.toPython, 0, [],
      (sampleTime 0).date.text, []⟩⟩) (by simp) digest inbound_ (sampleTime 0) (sampleId 2) with
    ⟨-, -, eq⟩ | ⟨-, seen, -⟩ | ⟨message, refused, -⟩ | ⟨fault, raised, -⟩
  · dsimp only
    rw [eq]
    rfl
  · exact absurd seen (by decide)
  · rw [valid] at refused
    cases refused
  · rw [valid] at raised
    cases raised

/-- A request comes in two chunks with a byte behind it, and its acknowledgement byte by byte. -/
theorem framing_exact_witness : ∃ (s : Service) (chunks : Chunks) (reply : Bytes) (a : Attempt),
    (handleConnection wireHost wireMessage chunks (sampleTime 0) (sampleId 2) s).1.passed =
      some (sampleEvent 1 0) ∧
    (handleConnection wireHost wireMessage chunks (sampleTime 0) (sampleId 2) s).1.rest.flatten =
      [0] ∧
    (handleConnection wireHost wireMessage chunks (sampleTime 0) (sampleId 2) s).1.reply =
      some reply ∧ a.reply = reply.map ([·]) ∧
    sendAndReceive wireHost.toPython a = some (.ok (.obj (Response.ack (sampleId 2)
      (sampleTime 0).isoformat (Lib.py genesisDigest) 1).toDict)) := by
  obtain ⟨body, data, sent, framed, some_, small⟩ := sample_request
  obtain ⟨head, eq, length, -⟩ := frame_some framed
  obtain ⟨b, more, rfl⟩ := List.exists_cons_of_ne_nil some_
  have arriving : Arriving [[b], more ++ [0]] := by simp [Arriving]
  have arrives : [[b], more ++ [0]].flatten = (b :: more) ++ [0] := by simp
  obtain ⟨rest, read, -⟩ := inbound_whole small framed arriving arrives
  obtain ⟨s, serving, response, hash⟩ := sample_acked sent read
  rw [hash] at response
  obtain ⟨body', sent', exact_⟩ := @framing_exact wireHost wireMessage wire_documented
    wireHost.toPython (by decide) s serving (sampleEvent 1 0) (sampleTime 0) (sampleId 2)
  cases sent.symm.trans sent'
  obtain ⟨data', framed', whole, -⟩ := exact_ small
  cases framed.symm.trans framed'
  have served := whole _ _ arriving arrives
  obtain ⟨answer, encoded, fits⟩ := served.answered _ response (by decide)
  have short : (request (.obj (Response.ack (sampleId 2) (sampleTime 0).isoformat
      (Lib.py genesisDigest) 1).toDict)).all (fun b => b.length ≤ 1000) = true := by
    decide +kernel
  rw [encoded] at short
  have bound : answer.length ≤ 1000 := by simpa using short
  obtain ⟨reply, -, sent⟩ := fits (by omega)
  have passed : (Loads.loads wireHost.toPython (Dumps.dumps true (sampleEvent 1 0))).toOption =
      some (sampleEvent 1 0) := by
    have inbound_ : Inbound wireHost (sampleEvent 1 0) := sample_inbound 1 0
    rw [Loads.loads_dumps true inbound_]
    rfl
  have bytes : (reply.map ([·])).flatten = reply ++ [] := by simp [← List.flatMap_def]
  exact ⟨s, _, reply, ⟨none, .done, reply.map ([·]), .silent, true⟩, served.passed.trans passed,
    served.consumed, sent, rfl,
    (served.returned _ reply response sent _ ⟨rfl, rfl, rfl⟩ [] bytes).1⟩

end Sample

end Drnt.Audit
