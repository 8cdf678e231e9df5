import Drnt.Audit.Runs
import Drnt.Lib.Encodable

/-! The audit log writer on files whose writes, flushes and fsyncs may fail, and with messages whose
texts may not be encodable: which events are handled as a whole or not at all. -/
namespace Drnt.Audit.Faults

open Lib
open Loads (Clean Loaded fits_of_loaded)

section Operations

/-- How an operation on an open file ends. One that fails may have taken the first bytes. -/
inductive Fate
  | done
  | fails (taken : Nat)
  deriving DecidableEq, Repr

inductive Thrown
  | raised (fault : Raised)
  | osError
  deriving DecidableEq, Repr

/-- The service, and how its next operations end; those after them are done. What an open file has
taken is in the file, whether or not it has been flushed. -/
structure Machine where
  service : Service
  fates : List Fate

abbrev Io := EStateM Thrown Machine

def update (f : Service → Service) : Io Unit := modify fun m => { m with service := f m.service }

def nextFate : Io Fate := modifyGet fun m => (m.fates.head?.getD .done, { m with fates := m.fates.tail })

def write (name : String) (data : Bytes) : Io Unit := do
  match ← nextFate with
  | .done => update fun s => { s with disk := s.disk.append name data }
  | .fails taken =>
    update fun s => { s with disk := s.disk.append name (data.take taken) }
    throw .osError

/-- A flush or an fsync. -/
def sync : Io Unit := do
  match ← nextFate with
  | .done => pure ()
  | .fails _ => throw .osError

def appendLine (date : String) (line : PyStr) (fsync : Bool) : Io Unit := do
  let name := getFilePath date
  update fun s => { s with disk := s.disk.openFile name }
  match Utf8.encode (line ++ [TextMode.lineFeed]) with
  | none => throw (.raised .unicodeEncode)
  | some data =>
    write name data
    if fsync then
      sync
      sync

def appendLines : List (String × PyStr) → Io Unit
  | [] => pure ()
  | (date, line) :: rest => do
    appendLine date line false
    appendLines rest

def flushBestEffort : Io Unit := do
  let buffer := (← get).service.writer.beBuffer
  if buffer ≠ [] then
    appendLines buffer
    sync
    update fun s => { s with writer.beBuffer := [] }

variable (host : Host)

def commitEvent (data : String → Json) (now : UtcTime) (eventId : Uuid7) : Io CommittedEvent := do
  let date := now.date.text
  if date ≠ (← get).service.writer.currentDate then flushBestEffort
  update fun s => { s with writer.currentDate := date }
  return committedEvent data eventId now.isoformat (← get).service.writer.prevHash

def writeEvent (e : CommittedEvent) : Io Unit := do
  let line := e.jsonLine
  let date := String.ofList (e.committedAt.toList.take 10)
  if e.durability = .text "durable" then
    flushBestEffort
    appendLine date line true
  else
    update fun s => { s with writer.beBuffer := s.writer.beBuffer ++ [(date, line)] }
  match Utf8.encode line with
  | none => throw (.raised .unicodeEncode)
  | some data => update fun s => { s with
      writer.prevHash := host.sha256 data
      writer.sequence := s.writer.sequence + 1
      writer.seenSourceIds := e.sourceEventId :: s.writer.seenSourceIds }

def handleEvent (data : Json) (now : UtcTime) (eventId : Uuid7) : Io Response := do
  match validateEvent host data with
  | .error fault => throw (.raised fault)
  | .ok (some message) => return .error message
  | .ok none =>
    if field data "source_event_id" ∈ (← get).service.writer.seenSourceIds then
      return .duplicate (field data "source_event_id")
    let e ← commitEvent (field data) now eventId
    writeEvent host e
    return .ack e.eventId e.committedAt e.prevHash (← get).service.writer.sequence

end Operations

section Calm

variable {α β : Type}

/-- A result of the writer as one of the machine. -/
def lift : EStateM.Result Raised Service α → EStateM.Result Thrown Machine α
  | .ok a s => .ok a ⟨s, []⟩
  | .error fault s => .error (.raised fault) ⟨s, []⟩

/-- Where no operation fails, the machine does what the writer does. -/
def Agrees (x : Io α) (y : Act α) : Prop := ∀ s, x ⟨s, []⟩ = lift (y s)

theorem run_get (f : Machine → Io β) (m : Machine) : ((get : Io Machine) >>= f) m = f m m := rfl

theorem Agrees.pure (a : α) : Agrees (pure a : Io α) (pure a : Act α) := fun _ => rfl

theorem Agrees.throw (fault : Raised) : Agrees (throw (.raised fault) : Io α) (throw fault : Act α) :=
  fun _ => rfl

theorem Agrees.update (f : Service → Service) : Agrees (update f) (modify f : Act PUnit) := fun _ => rfl

theorem Agrees.read {f : Machine → Io β} {g : Service → Act β} (h : ∀ s, Agrees (f ⟨s, []⟩) (g s)) :
    Agrees ((get : Io Machine) >>= f) ((get : Act Service) >>= g) := fun s => h s s

theorem Agrees.bind {x : Io α} {y : Act α} {f : α → Io β} {g : α → Act β} (first : Agrees x y)
    (rest : ∀ a, Agrees (f a) (g a)) : Agrees (x >>= f) (y >>= g) := by
  intro s
  have start := first s
  simp only [Bind.bind, EStateM.bind]
  rw [start]
  cases y s with
  | ok a s' => exact rest a s'
  | error fault s' => rfl

theorem appendLine_agrees (date : String) (line : PyStr) (fsync : Bool) :
    Agrees (appendLine date line fsync) (Audit.appendLine date line) := by
  unfold appendLine Audit.appendLine
  refine .bind (.update _) fun _ => ?_
  cases Utf8.encode (line ++ [TextMode.lineFeed]) with
  | none => exact .throw _
  | some data =>
    intro s
    cases fsync <;> rfl

theorem appendLines_agrees (lines : List (String × PyStr)) :
    Agrees (appendLines lines) (Audit.appendLines lines) := by
  induction lines with
  | nil => exact .pure ()
  | cons x lines ih => exact .bind (appendLine_agrees _ _ _) fun _ => ih

theorem flush_agrees : Agrees flushBestEffort Audit.flushBestEffort := by
  intro s
  by_cases none : s.writer.beBuffer = []
  · obtain ⟨d, ⟨prev, sequence, seen, current, buffer⟩⟩ := s
    cases none
    rfl
  · unfold flushBestEffort Audit.flushBestEffort
    rw [run_get, bind_get]
    dsimp only
    rw [if_pos none]
    exact Agrees.bind (appendLines_agrees _) (fun _ _ => rfl) s

variable (host : Host)

theorem commitEvent_agrees (data : String → Json) (now : UtcTime) (eventId : Uuid7) :
    Agrees (commitEvent data now eventId) (Audit.commitEvent data now eventId) := by
  have last : Agrees (do
      update fun s => { s with writer.currentDate := now.date.text }
      return committedEvent data eventId now.isoformat (← get).service.writer.prevHash) (do
      modify fun s => { s with writer.currentDate := now.date.text }
      return committedEvent data eventId now.isoformat (← get).writer.prevHash) :=
    .bind (.update _) fun _ => .read fun _ => .pure _
  refine .read fun s => ?_
  dsimp only
  split
  · exact .bind flush_agrees fun _ => last
  · exact last

theorem writeEvent_agrees (e : CommittedEvent) :
    Agrees (writeEvent host e) (Audit.writeEvent host e) := by
  have last : Agrees (match Utf8.encode e.jsonLine with
      | none => throw (.raised .unicodeEncode)
      | some data => update fun s => { s with
          writer.prevHash := host.sha256 data
          writer.sequence := s.writer.sequence + 1
          writer.seenSourceIds := e.sourceEventId :: s.writer.seenSourceIds })
      (match Utf8.encode e.jsonLine with
      | none => throw .unicodeEncode
      | some data => modify fun s => { s with
          writer.prevHash := host.sha256 data
          writer.sequence := s.writer.sequence + 1
          writer.seenSourceIds := e.sourceEventId :: s.writer.seenSourceIds }) := by
    cases Utf8.encode e.jsonLine with
    | none => exact .throw _
    | some data => exact .update _
  unfold writeEvent Audit.writeEvent
  dsimp only
  split
  · exact .bind flush_agrees fun _ => .bind (appendLine_agrees _ _ _) fun _ => last
  · exact .bind (.update _) fun _ => last

/-- Where no operation fails, events are handled as the writer handles them. -/
theorem handleEvent_agrees (data : Json) (now : UtcTime) (eventId : Uuid7) :
    Agrees (handleEvent host data now eventId) (Audit.handleEvent host data now eventId) := by
  unfold handleEvent Audit.handleEvent
  match validateEvent host data with
  | .error fault => exact .throw fault
  | .ok (some message) => exact .pure _
  | .ok none =>
    refine .read fun s => ?_
    split
    · exact .pure _
    · exact .bind (commitEvent_agrees _ _ _) fun e => .bind (writeEvent_agrees host e) fun _ =>
        .read fun _ => .pure _

end Calm

section Conditions

/-- The first operations are done. -/
def Quiet (n : Nat) (fates : List Fate) : Prop := ∀ f ∈ fates.take n, f = .done

instance (n : Nat) (fates : List Fate) : Decidable (Quiet n fates) :=
  inferInstanceAs (Decidable (∀ f ∈ fates.take n, f = .done))

/-- The operations of a flush of so many lines. -/
def flushes (lines : Nat) : Nat := if lines = 0 then 0 else lines + 1

/-- The fields that the writer copies hold no surrogate. -/
def Printable (data : Json) : Prop := ∀ name ∈ copied, (field data name).encodable = true

instance (data : Json) : Decidable (Printable data) :=
  inferInstanceAs (Decidable (∀ name ∈ copied, (field data name).encodable = true))

def durable (data : Json) : Bool := field data "durability" = .text "durable"

/-- The event makes the writer flush its buffer: it is durable or the first of another day. -/
def flushing (s : Service) (data : Json) (now : UtcTime) : Bool :=
  durable data || now.date.text ≠ s.writer.currentDate

/-- The operations of an event that is accepted. -/
def operations (s : Service) (data : Json) (now : UtcTime) : Nat :=
  (if flushing s data now then flushes s.writer.beBuffer.length else 0) + if durable data then 3 else 0

/-- What fails first leaves no trace: the file is there, and the first line that is to be written
cannot be encoded or nothing of it is taken. A buffer is written before the event itself. -/
def Traceless (s : Service) (data : Json) (now : UtcTime) (fates : List Fate) : Prop :=
  if s.writer.beBuffer = [] then
    durable data = true ∧ s.disk.exists? (getFilePath now.date.text) = true ∧
      (¬ Printable data ∨ fates.head? = some (.fails 0))
  else
    flushing s data now = true ∧ s.disk.exists? (getFilePath s.writer.currentDate) = true ∧
      fates.head? = some (.fails 0)

/-- An event that is handled as a whole or not at all: it is refused or known, or it can be encoded
and its operations are done, or it fails without a trace. -/
def Spared (host : Host) (s : Service) (data : Json) (now : UtcTime) (fates : List Fate) : Prop :=
  validateEvent host data ≠ .ok none ∨ field data "source_event_id" ∈ s.writer.seenSourceIds ∨
    Printable data ∧ Quiet (operations s data now) fates ∨ Traceless s data now fates

/-- The files and the chain are as before. -/
structure Same (s s' : Service) : Prop where
  disk : s'.disk = s.disk
  buffer : s'.writer.beBuffer = s.writer.beBuffer
  prevHash : s'.writer.prevHash = s.writer.prevHash
  sequence : s'.writer.sequence = s.writer.sequence
  seen : s'.writer.seenSourceIds = s.writer.seenSourceIds

/-- The event was answered ok, or nothing has changed. -/
def Atomic (s : Service) : EStateM.Result Thrown Machine Response → Prop
  | .ok (.ack ..) _ => True
  | .ok _ m | .error _ m => Same s m.service

end Conditions

section Sizes

/-- The bytes of the files, and the files. -/
def size (d : Disk) : Nat := (d.logs.map fun f => f.data.length + 1).sum

variable {d : Disk} {name : String} {data : Bytes}

theorem sum_apart {files : List LogFile} (g : LogFile → Nat) (ne : ∀ f ∈ files, f.name ≠ name) :
    ((files.filter (·.name < name)).map g).sum + ((files.filter (name < ·.name)).map g).sum =
      (files.map g).sum := by
  induction files with
  | nil => rfl
  | cons f files ih =>
    have rest := ih fun x mem => ne x (List.mem_cons_of_mem _ mem)
    rcases lt_or_gt_of_ne (ne f (List.mem_cons_self ..)) with less | more
    · rw [List.filter_cons_of_pos (by simpa using less),
        List.filter_cons_of_neg (by simpa only [decide_eq_true_eq] using less.not_gt)]
      simp only [List.map_cons, List.sum_cons]
      omega
    · rw [List.filter_cons_of_neg (by simpa only [decide_eq_true_eq] using more.not_gt),
        List.filter_cons_of_pos (by simpa using more)]
      simp only [List.map_cons, List.sum_cons]
      omega

theorem size_openFile (absent : d.exists? name = false) : size d < size (d.openFile name) := by
  have ne : ∀ f ∈ d.logs, f.name ≠ name := by simpa [Disk.exists?] using absent
  have split := sum_apart (fun f => f.data.length + 1) ne
  rw [Disk.openFile, if_neg (by simp [absent])]
  simp only [size, Disk.create, List.map_append, List.map_cons, List.sum_append, List.sum_cons]
  omega

theorem exists_openFile (d : Disk) (name : String) : (d.openFile name).exists? name = true := by
  unfold Disk.openFile
  split
  · assumption
  · simp [Disk.exists?, Disk.create]

variable (name data) in
theorem sum_appended (files : List LogFile) : (files.map fun f => f.data.length + 1).sum ≤
    ((files.map (Disk.appended name data)).map fun f => f.data.length + 1).sum := by
  induction files with
  | nil => exact Nat.le_refl _
  | cons f files ih =>
    have here : f.data.length ≤ (Disk.appended name data f).data.length := by
      unfold Disk.appended
      split
      · rw [List.length_append]
        exact Nat.le_add_right ..
      · exact Nat.le_refl _
    simp only [List.map_cons, List.sum_cons]
    omega

theorem size_append (there : d.exists? name = true) (some : data ≠ []) :
    size d < size (d.append name data) := by
  obtain ⟨f, mem, rfl⟩ : ∃ f ∈ d.logs, f.name = name := by simpa [Disk.exists?] using there
  obtain ⟨before, after, split⟩ := List.append_of_mem mem
  have first := sum_appended f.name data before
  have last := sum_appended f.name data after
  have more : 0 < data.length := List.length_pos_iff.mpr some
  simp only [size, Disk.append, split, List.map_append, List.map_cons, List.sum_append, List.sum_cons]
  rw [Disk.appended, if_pos rfl, List.length_append]
  omega

end Sizes

section Acts

variable {α β : Type}

theorem Same.refl (s : Service) : Same s s := ⟨rfl, rfl, rfl, rfl, rfl⟩

theorem not_same {s s' : Service} (more : size s.disk < size s'.disk) : ¬ Same s s' := by
  intro h
  rw [h.disk] at more
  exact Nat.lt_irrefl _ more

theorem quiet_zero (fates : List Fate) : Quiet 0 fates := nofun

theorem quiet_add {m n : Nat} {fates : List Fate} :
    Quiet (m + n) fates ↔ Quiet m fates ∧ Quiet n (fates.drop m) := by
  simp only [Quiet, List.take_add, List.mem_append]
  exact ⟨fun h => ⟨fun f mem => h f (.inl mem), fun f mem => h f (.inr mem)⟩,
    fun h f mem => mem.elim (h.1 f) (h.2 f)⟩

theorem Quiet.head {n : Nat} {fates : List Fate} (h : Quiet (n + 1) fates) :
    fates.head? ≠ some (.fails 0) := by
  cases fates with
  | nil => nofun
  | cons f fates =>
    have done := h f (List.mem_cons_self ..)
    rintro ⟨⟩
    cases done

/-- An action that needs `n` operations and the condition `can`. If it raises then files have only
grown, and files and chain are as before just in the case `mute`, which leaves `base`. -/
structure Acts (x : Io α) (m : Machine) (n : Nat) (can : Prop) (a : α) (after : Service)
    (mute : Prop) (base : Service) : Prop where
  ok : can → Quiet n m.fates → x m = .ok a ⟨after, m.fates.drop n⟩
  grows : can → Quiet n m.fates → size m.service.disk ≤ size after.disk
  error : ¬ (can ∧ Quiet n m.fates) → ∃ e m', x m = .error e m' ∧
    size m.service.disk ≤ size m'.service.disk ∧ (Same m.service m'.service ↔ mute) ∧
    (mute → m'.service = base)

/-- An action that leaves more in the files. -/
structure Writes (x : Io α) (m : Machine) (n : Nat) (can : Prop) (a : α) (after : Service)
    (mute : Prop) : Prop extends Acts x m n can a after mute m.service where
  grown : can → Quiet n m.fates → size m.service.disk < size after.disk
  loud : can → Quiet n m.fates → ¬ mute

variable {x : Io α} {f : α → Io β} {m : Machine} {n k : Nat} {can able mute quiet : Prop} {a : α} {b : β}
  {after last base : Service}

theorem bind_error {m' : Machine} {e : Thrown} (h : x m = .error e m') :
    (x >>= f) m = .error e m' := by
  simp [bind, EStateM.bind, h]

theorem run_bind {m' : Machine} (h : x m = .ok a m') : (x >>= f) m = f a m' := by
  simp [bind, EStateM.bind, h]

theorem Acts.pure (a : α) (m : Machine) : Acts (pure a : Io α) m 0 True a m.service False m.service where
  ok _ _ := rfl
  grows _ _ := Nat.le_refl _
  error h := absurd ⟨trivial, quiet_zero _⟩ h

/-- What comes after an action that has written cannot make it undone. -/
theorem Writes.bind (first : Writes x m n can a after mute)
    (rest : Acts (f a) ⟨after, m.fates.drop n⟩ k able b last quiet base) :
    Writes (x >>= f) m (n + k) (can ∧ able) b last mute where
  ok both still := by
    obtain ⟨before, behind⟩ := quiet_add.mp still
    rw [run_bind (first.ok both.1 before), rest.ok both.2 behind, List.drop_drop]
  grows both still := by
    obtain ⟨before, behind⟩ := quiet_add.mp still
    exact Nat.le_trans (first.grows both.1 before) (rest.grows both.2 behind)
  grown both still := by
    obtain ⟨before, behind⟩ := quiet_add.mp still
    exact Nat.lt_of_lt_of_le (first.grown both.1 before) (rest.grows both.2 behind)
  loud both still := first.loud both.1 (quiet_add.mp still).1
  error not := by
    by_cases ran : can ∧ Quiet n m.fates
    · have failed : ¬ (able ∧ Quiet k (m.fates.drop n)) := fun h =>
        not ⟨⟨ran.1, h.1⟩, quiet_add.mpr ⟨ran.2, h.2⟩⟩
      obtain ⟨e, m', raised, more, -⟩ := rest.error failed
      have grown := Nat.lt_of_lt_of_le (first.grown ran.1 ran.2) more
      have loud := first.loud ran.1 ran.2
      exact ⟨e, m', by rw [run_bind (first.ok ran.1 ran.2), raised], grown.le,
        iff_of_false (not_same grown) loud, fun mute => absurd mute loud⟩
    · obtain ⟨e, m', raised, rest⟩ := first.error ran
      exact ⟨e, m', bind_error raised, rest⟩

/-- After an action that changes nothing in the files or the chain. -/
theorem Acts.skip (ran : x m = .ok a ⟨after, m.fates⟩) (same : Same m.service after)
    (rest : Acts (f a) ⟨after, m.fates⟩ n can b last mute base) :
    Acts (x >>= f) m n can b last mute base where
  ok h still := by rw [run_bind ran, rest.ok h still]
  grows h still := by
    have more := rest.grows h still
    rwa [same.disk] at more
  error not := by
    obtain ⟨e, m', raised, more, iff, stays⟩ := rest.error not
    refine ⟨e, m', by rw [run_bind ran, raised], by rwa [same.disk] at more, ?_, stays⟩
    rw [← iff]
    constructor
    · intro h
      exact ⟨h.disk.trans same.disk.symm, h.buffer.trans same.buffer.symm,
        h.prevHash.trans same.prevHash.symm, h.sequence.trans same.sequence.symm,
        h.seen.trans same.seen.symm⟩
    · intro h
      exact ⟨h.disk.trans same.disk, h.buffer.trans same.buffer, h.prevHash.trans same.prevHash,
        h.sequence.trans same.sequence, h.seen.trans same.seen⟩

/-- After an action that changes nothing at all. -/
theorem Writes.skip_eq (rest : Writes (f a) m n can b last mute) (ran : x m = .ok a m) :
    Writes (x >>= f) m n can b last mute where
  toActs := rest.toActs.skip ran (Same.refl _)
  grown := rest.grown
  loud := rest.loud

theorem Acts.read {f : Machine → Io β} (rest : Acts (f m) m n can b last mute base) :
    Acts ((get : Io Machine) >>= f) m n can b last mute base := ⟨rest.ok, rest.grows, rest.error⟩

theorem Writes.read {f : Machine → Io β} (rest : Writes (f m) m n can b last mute) :
    Writes ((get : Io Machine) >>= f) m n can b last mute :=
  ⟨.read rest.toActs, rest.grown, rest.loud⟩

theorem Acts.congr (h : Acts x m n can a after mute base) (hn : n = k) (hc : can ↔ able)
    (hm : mute ↔ quiet) (hs : after = last) : Acts x m k able a last quiet base := by
  cases hn
  cases hs
  exact ⟨fun c => h.ok (hc.mpr c), fun c => h.grows (hc.mpr c), by rw [← hc, ← hm]; exact h.error⟩

theorem Writes.congr (h : Writes x m n can a after mute) (hn : n = k) (hc : can ↔ able)
    (hm : mute ↔ quiet) (hs : after = last) : Writes x m k able a last quiet := by
  refine ⟨h.toActs.congr hn hc hm hs, ?_, ?_⟩
  all_goals
    cases hn
    cases hs
    rw [← hc]
  · exact h.grown
  · rw [← hm]
    exact h.loud

/-- An action that is followed by one that cannot fail. -/
theorem Acts.then_ (h : Acts x m n can a after mute base)
    (ran : ∀ fates, f a ⟨after, fates⟩ = .ok b ⟨last, fates⟩)
    (more : size after.disk ≤ size last.disk) : Acts (x >>= f) m n can b last mute base where
  ok c still := by rw [run_bind (h.ok c still), ran]
  grows c still := Nat.le_trans (h.grows c still) more
  error not := by
    obtain ⟨e, m', raised, rest⟩ := h.error not
    exact ⟨e, m', bind_error raised, rest⟩

end Acts

section Lines

variable {m : Machine} {name date : String} {data : Bytes} {line : PyStr}
  {lines : List (String × PyStr)}

/-- The first operation fails and nothing is taken. -/
def Machine.refuses (m : Machine) : Prop := m.fates.head? = some (.fails 0)

theorem sync_acts (m : Machine) : Acts sync m 1 True () m.service True m.service where
  ok _ still := by
    obtain ⟨s, fates⟩ := m
    cases fates with
    | nil => rfl
    | cons f fates =>
      cases still f (List.mem_cons_self ..)
      rfl
  grows _ _ := Nat.le_refl _
  error not := by
    obtain ⟨s, fates⟩ := m
    cases fates with
    | nil => exact absurd ⟨trivial, nofun⟩ not
    | cons f fates =>
      cases f with
      | done => exact absurd ⟨trivial, fun f mem => by simpa using mem⟩ not
      | fails k => exact ⟨.osError, _, rfl, Nat.le_refl _, iff_of_true (Same.refl _) trivial, fun _ => rfl⟩

theorem syncs_acts (m : Machine) : Acts (do sync; sync) m 2 True () m.service True m.service where
  ok _ still := by
    obtain ⟨before, behind⟩ := (quiet_add (m := 1) (n := 1)).mp still
    rw [run_bind ((sync_acts m).ok trivial before), (sync_acts _).ok trivial behind, List.drop_drop]
  grows _ _ := Nat.le_refl _
  error not := by
    by_cases before : Quiet 1 m.fates
    · have failed : ¬ (True ∧ Quiet 1 (m.fates.drop 1)) := fun h =>
        not ⟨trivial, (quiet_add (m := 1) (n := 1)).mpr ⟨before, h.2⟩⟩
      obtain ⟨e, m', raised, rest⟩ := (sync_acts ⟨m.service, m.fates.drop 1⟩).error failed
      exact ⟨e, m', by rw [run_bind ((sync_acts m).ok trivial before), raised], rest⟩
    · obtain ⟨e, m', raised, rest⟩ := (sync_acts m).error fun h => before h.2
      exact ⟨e, m', bind_error raised, rest⟩

theorem append_nothing (d : Disk) (name : String) : d.append name [] = d := by
  have same : Disk.appended name [] = id := by
    funext f
    simp [Disk.appended]
  obtain ⟨logs, sorted, quarantine⟩ := d
  simp only [Disk.append, same, List.map_id_fun, id_eq]

theorem write_writes (there : m.service.disk.exists? name = true) (some : data ≠ []) :
    Writes (write name data) m 1 True () ⟨m.service.disk.append name data, m.service.writer⟩
      m.refuses where
  ok _ still := by
    obtain ⟨s, fates⟩ := m
    cases fates with
    | nil => rfl
    | cons f fates =>
      cases still f (List.mem_cons_self ..)
      rfl
  grows _ _ := (size_append there some).le
  grown _ _ := size_append there some
  loud _ still := still.head
  error not := by
    obtain ⟨s, fates⟩ := m
    cases fates with
    | nil => exact absurd ⟨trivial, nofun⟩ not
    | cons f fates =>
      cases f with
      | done => exact absurd ⟨trivial, fun f mem => by simpa using mem⟩ not
      | fails k =>
        refine ⟨.osError, ⟨{ s with disk := s.disk.append name (data.take k) }, fates⟩, rfl, ?_⟩
        cases k with
        | zero =>
          rw [List.take_zero, append_nothing]
          exact ⟨Nat.le_refl _, iff_of_true (Same.refl _) rfl, fun _ => rfl⟩
        | succ k =>
          have taken : data.take (k + 1) ≠ [] := by simpa using some
          have grown := size_append there taken
          have taken_some : ¬ Machine.refuses ⟨s, .fails (k + 1) :: fates⟩ := by simp [Machine.refuses]
          exact ⟨grown.le, iff_of_false (not_same grown) taken_some, fun mute => absurd mute taken_some⟩

theorem encodable_line (line : PyStr) :
    Utf8.encodable (line ++ [TextMode.lineFeed]) = Utf8.encodable line := by
  rw [Loads.encodable_append]
  exact Bool.and_true _

theorem appendLine_writes (m : Machine) (date : String) (line : PyStr) (fsync : Bool) :
    Writes (appendLine date line fsync) m (if fsync then 3 else 1) (Utf8.encodable line = true) ()
      ⟨m.service.disk.write (getFilePath date) (encoded line ++ [newline]), m.service.writer⟩
      (m.service.disk.exists? (getFilePath date) = true ∧ (Utf8.encodable line = false ∨ m.refuses)) := by
  -- what follows when the file is there
  have opened (m : Machine) (there : m.service.disk.exists? (getFilePath date) = true) :
      Writes (match Utf8.encode (line ++ [TextMode.lineFeed]) with
          | none => throw (.raised .unicodeEncode)
          | some data => do
            write (getFilePath date) data
            if fsync then
              sync
              sync) m (if fsync then 3 else 1) (Utf8.encodable line = true) ()
        ⟨m.service.disk.append (getFilePath date) (encoded line ++ [newline]), m.service.writer⟩
        (Utf8.encodable line = false ∨ m.refuses) := by
    cases plain : Utf8.encodable line with
    | false =>
      have none : Utf8.encode (line ++ [TextMode.lineFeed]) = none :=
        if_neg (by simp [encodable_line, plain])
      rw [none]
      refine ⟨⟨nofun, nofun, fun _ => ⟨_, m, rfl, Nat.le_refl _, ?_, fun _ => rfl⟩⟩, nofun, nofun⟩
      exact iff_of_true (Same.refl _) (.inl rfl)
    | true =>
      have some : Utf8.encode (line ++ [TextMode.lineFeed]) = some (encoded line ++ [newline]) := by
        have bytes : encoded (line ++ [TextMode.lineFeed]) = encoded line ++ [newline] :=
          encoded_append ..
        rw [← bytes]
        exact if_pos ((encodable_line line).trans plain)
      rw [some]
      have written : Writes (write _ (encoded line ++ [newline])) m _ _ _ _ _ :=
        write_writes there (by simp)
      cases fsync with
      | false => refine (written.bind (Acts.pure () _)).congr ?_ ?_ ?_ ?_ <;> simp
      | true => refine (written.bind (syncs_acts _)).congr ?_ ?_ ?_ ?_ <;> simp
  by_cases there : m.service.disk.exists? (getFilePath date) = true
  · have same : m.service.disk.openFile (getFilePath date) = m.service.disk := if_pos there
    have disk : m.service.disk.write (getFilePath date) (encoded line ++ [newline]) =
        m.service.disk.append (getFilePath date) (encoded line ++ [newline]) := by
      rw [Disk.write, same]
    have ran : update (fun s => { s with disk := s.disk.openFile (getFilePath date) }) m = .ok () m := by
      show EStateM.Result.ok () (⟨⟨m.service.disk.openFile _, m.service.writer⟩, m.fates⟩ : Machine) = _
      rw [same]
    have both : (m.service.disk.exists? (getFilePath date) = true ∧
        (Utf8.encodable line = false ∨ m.refuses)) ↔ (Utf8.encodable line = false ∨ m.refuses) :=
      and_iff_right there
    rw [disk, both]
    unfold appendLine
    exact Writes.skip_eq (a := ()) (opened m there) ran
  · have absent : m.service.disk.exists? (getFilePath date) = false := by simpa using there
    have created : Writes (update fun s => { s with disk := s.disk.openFile (getFilePath date) }) m 0
        True () ⟨m.service.disk.openFile (getFilePath date), m.service.writer⟩ False :=
      ⟨⟨fun _ _ => rfl, fun _ _ => (size_openFile absent).le, fun not => absurd ⟨trivial, quiet_zero _⟩ not⟩,
        fun _ _ => size_openFile absent, fun _ _ => id⟩
    refine (created.bind (opened _ (exists_openFile ..)).toActs).congr ?_ ?_ ?_ ?_
    · exact Nat.zero_add _
    · exact and_iff_right trivial
    · simp [absent]
    · rfl

/-- The file of the first line is there, and nothing of the line is taken. -/
def Machine.blocks (m : Machine) (date : String) : Prop :=
  m.service.disk.exists? (getFilePath date) = true ∧ m.refuses

variable (date) in
theorem appendLines_writes (plain : Utf8.encodable line = true) {mute : Machine → Prop}
    (rest : ∀ m, Acts (appendLines lines) m lines.length True ()
      ⟨flushed m.service.disk lines, m.service.writer⟩ (mute m) m.service) (m : Machine) :
    Writes (appendLines ((date, line) :: lines)) m (lines.length + 1) True ()
      ⟨flushed m.service.disk ((date, line) :: lines), m.service.writer⟩ (m.blocks date) := by
  refine ((appendLine_writes m date line false).bind (rest _)).congr ?_ ?_ ?_ rfl
  · exact Nat.add_comm ..
  · simp [plain]
  · simp [plain, Machine.blocks]

theorem appendLines_acts (plain : ∀ x ∈ lines, Utf8.encodable x.2 = true) (m : Machine) :
    Acts (appendLines lines) m lines.length True ()
      ⟨flushed m.service.disk lines, m.service.writer⟩
      (∃ x, lines.head? = some x ∧ m.blocks x.1) m.service := by
  induction lines generalizing m with
  | nil => exact (Acts.pure () m).congr rfl Iff.rfl (by simp) rfl
  | cons x lines ih =>
    have rest := ih fun y mem => plain y (List.mem_cons_of_mem _ mem)
    have first := appendLines_writes x.1 (plain x (List.mem_cons_self ..)) rest m
    exact first.toActs.congr rfl Iff.rfl (by simp) rfl

theorem flush_nothing (none : m.service.writer.beBuffer = []) : flushBestEffort m = .ok () m := by
  unfold flushBestEffort
  rw [run_get, none]
  rfl

/-- The buffer is written out as a whole, or the writer keeps it. -/
theorem flush_writes {x : String × PyStr} (buffer : m.service.writer.beBuffer = x :: lines)
    (plain : ∀ y ∈ m.service.writer.beBuffer, Utf8.encodable y.2 = true) :
    Writes flushBestEffort m (flushes m.service.writer.beBuffer.length) True ()
      ⟨flushed m.service.disk m.service.writer.beBuffer, { m.service.writer with beBuffer := [] }⟩
      (m.blocks x.1) := by
  rw [buffer] at plain
  have first := appendLines_writes x.1 (plain x (List.mem_cons_self ..))
    (appendLines_acts fun y mem => plain y (List.mem_cons_of_mem _ mem)) m
  have ended (m' : Machine) : Acts (do
      sync
      update fun s => { s with writer.beBuffer := [] }) m' 1 True ()
      ⟨m'.service.disk, { m'.service.writer with beBuffer := [] }⟩ True m'.service :=
    (sync_acts m').then_ (fun _ => rfl) (Nat.le_refl _)
  have whole := first.bind (f := fun _ => do
      sync
      update fun s => { s with writer.beBuffer := [] }) (ended _)
  unfold flushBestEffort
  refine .read ?_
  rw [buffer]
  dsimp only
  rw [if_pos (List.cons_ne_nil x lines)]
  refine whole.congr ?_ (by simp) Iff.rfl rfl
  simp [flushes]

end Lines

section Events

variable {host : Host} {m : Machine} {e : CommittedEvent} {date : String} {data : Json}
  {now : UtcTime} {eventId : Uuid7}

/-- The service when an event has been written. -/
def written (host : Host) (s : Service) (e : CommittedEvent) (date : String) : Service :=
  let r := recorded s (e.durability = .text "durable") date e.jsonLine
  { r with
    writer.prevHash := computeHash host.toPython e.jsonLine
    writer.sequence := s.writer.sequence + 1
    writer.seenSourceIds := e.sourceEventId :: s.writer.seenSourceIds }

/-- What of an event is done at its end: its line becomes the tip of the chain. -/
def chain (host : Host) (e : CommittedEvent) : Io Unit :=
  match Utf8.encode e.jsonLine with
  | none => throw (.raised .unicodeEncode)
  | some data => update fun s => { s with
      writer.prevHash := host.sha256 data
      writer.sequence := s.writer.sequence + 1
      writer.seenSourceIds := e.sourceEventId :: s.writer.seenSourceIds }

theorem chain_acts (host : Host) (e : CommittedEvent) (m : Machine) :
    Acts (chain host e) m 0 (Utf8.encodable e.jsonLine = true) ()
      { m.service with
        writer.prevHash := computeHash host.toPython e.jsonLine
        writer.sequence := m.service.writer.sequence + 1
        writer.seenSourceIds := e.sourceEventId :: m.service.writer.seenSourceIds } True m.service := by
  unfold chain computeHash
  cases plain : Utf8.encodable e.jsonLine with
  | false =>
    rw [Utf8.encode, if_neg (by simp [plain])]
    exact ⟨(by simp), (by simp), fun _ =>
      ⟨_, m, rfl, Nat.le_refl _, iff_of_true (Same.refl _) trivial, fun _ => rfl⟩⟩
  | true =>
    rw [Utf8.encode, if_pos plain]
    exact ⟨fun _ _ => rfl, fun _ _ => Nat.le_refl _, fun not => absurd ⟨rfl, quiet_zero _⟩ not⟩

/-- A durable event that finds the buffer empty. -/
theorem writeEvent_durable (durable : e.durability = .text "durable")
    (day : String.ofList (e.committedAt.toList.take 10) = date)
    (none : m.service.writer.beBuffer = []) :
    Writes (writeEvent host e) m 3 (Utf8.encodable e.jsonLine = true) ()
      (written host m.service e date)
      (m.service.disk.exists? (getFilePath date) = true ∧
        (Utf8.encodable e.jsonLine = false ∨ m.refuses)) := by
  unfold writeEvent
  dsimp only
  rw [if_pos durable, day]
  refine Writes.skip_eq (a := ()) ?_ (flush_nothing none)
  refine ((appendLine_writes m date e.jsonLine true).bind (chain_acts host e _)).congr rfl
    (and_self_iff) Iff.rfl ?_
  simp [written, recorded, durable, none, flushed]

/-- A durable event that finds lines in the buffer. -/
theorem writeEvent_flushing {x : String × PyStr} {lines : List (String × PyStr)}
    (durable : e.durability = .text "durable")
    (day : String.ofList (e.committedAt.toList.take 10) = date)
    (buffer : m.service.writer.beBuffer = x :: lines)
    (plain : ∀ y ∈ m.service.writer.beBuffer, Utf8.encodable y.2 = true) :
    Writes (writeEvent host e) m (flushes m.service.writer.beBuffer.length + 3)
      (Utf8.encodable e.jsonLine = true) () (written host m.service e date) (m.blocks x.1) := by
  unfold writeEvent
  dsimp only
  rw [if_pos durable, day]
  have rest (m : Machine) := (appendLine_writes m date e.jsonLine true).bind
    (f := fun _ => chain host e) (chain_acts host e _)
  refine ((flush_writes buffer plain).bind (rest _).toActs).congr rfl ?_ Iff.rfl ?_
  · simp
  · simp [written, recorded, durable, flushed, Disk.write]

/-- A best-effort event goes to the buffer, and stays there when it cannot be encoded. -/
theorem writeEvent_buffers (bestEffort : e.durability ≠ .text "durable")
    (day : String.ofList (e.committedAt.toList.take 10) = date) :
    Acts (writeEvent host e) m 0 (Utf8.encodable e.jsonLine = true) ()
      (written host m.service e date) False m.service := by
  unfold writeEvent
  dsimp only
  rw [if_neg bestEffort, day]
  have buffered : update (fun s => { s with
      writer.beBuffer := s.writer.beBuffer ++ [(date, e.jsonLine)] }) m =
      .ok () ⟨{ m.service with
        writer.beBuffer := m.service.writer.beBuffer ++ [(date, e.jsonLine)] }, m.fates⟩ := rfl
  have rest := chain_acts host e ⟨{ m.service with
    writer.beBuffer := m.service.writer.beBuffer ++ [(date, e.jsonLine)] }, m.fates⟩
  have last : written host m.service e date = { m.service with
      writer.beBuffer := m.service.writer.beBuffer ++ [(date, e.jsonLine)]
      writer.prevHash := computeHash host.toPython e.jsonLine
      writer.sequence := m.service.writer.sequence + 1
      writer.seenSourceIds := e.sourceEventId :: m.service.writer.seenSourceIds } := by
    simp [written, recorded, bestEffort]
  rw [last]
  refine ⟨fun c still => ?_, fun _ _ => Nat.le_refl _, fun not => ?_⟩
  · rw [run_bind buffered]
    exact rest.ok c still
  · obtain ⟨fault, m', raised, more, same, -⟩ := rest.error not
    refine ⟨fault, m', by rw [run_bind buffered]; exact raised, more, iff_of_false (fun h => ?_) id,
      False.elim⟩
    have longer := congrArg List.length ((same.mpr trivial).buffer.symm.trans h.buffer)
    simp at longer

variable (fields : String → Json)

/-- The writer turns to a day without a flush. -/
theorem commitEvent_still (h : now.date.text = m.service.writer.currentDate ∨
    m.service.writer.beBuffer = []) : commitEvent fields now eventId m =
      .ok (committedEvent fields eventId now.isoformat m.service.writer.prevHash)
        ⟨turned m.service now.date.text, m.fates⟩ := by
  obtain ⟨⟨d, ⟨prev, sequence, seen, current, buffer⟩⟩, fates⟩ := m
  unfold commitEvent turned
  dsimp only at h ⊢
  rw [run_get]
  dsimp only
  by_cases same : now.date.text = current
  · subst same
    rw [if_neg (not_not.mpr rfl), if_neg (not_not.mpr rfl)]
    rfl
  · cases h.resolve_left same
    rw [if_pos same, if_pos same, run_bind (flush_nothing rfl)]
    rfl

theorem commitEvent_flushing {x : String × PyStr} {lines : List (String × PyStr)}
    (turn : now.date.text ≠ m.service.writer.currentDate)
    (buffer : m.service.writer.beBuffer = x :: lines)
    (plain : ∀ y ∈ m.service.writer.beBuffer, Utf8.encodable y.2 = true) :
    Writes (commitEvent fields now eventId) m (flushes m.service.writer.beBuffer.length) True
      (committedEvent fields eventId now.isoformat m.service.writer.prevHash)
      (turned m.service now.date.text) (m.blocks x.1) := by
  have flush := flush_writes buffer plain
  have turned_ : turned m.service now.date.text = ⟨flushed m.service.disk m.service.writer.beBuffer,
      { m.service.writer with beBuffer := [], currentDate := now.date.text }⟩ := if_pos turn
  rw [turned_]
  unfold commitEvent
  refine .read ?_
  dsimp only
  rw [if_pos turn]
  exact ⟨flush.toActs.then_ (fun _ => rfl) (Nat.le_refl _), flush.grown, flush.loud⟩

/-- The lines of a buffer can be encoded and are those of the current day. -/
structure Tidy (w : Writer) : Prop where
  plain : ∀ y ∈ w.beBuffer, Utf8.encodable y.2 = true
  dated : ∀ y ∈ w.beBuffer, y.1 = w.currentDate

/-- The event of a message, on the chain of a writer. -/
def eventOf (w : Writer) (data : Json) (now : UtcTime) (eventId : Uuid7) : CommittedEvent :=
  committedEvent (field data) eventId now.isoformat w.prevHash

theorem written_accepted (s : Service) : written host (turned s now.date.text)
    (eventOf s.writer data now eventId) now.date.text = accepted host s data now eventId := by
  obtain ⟨-, sequence, seen, -⟩ := turned_state s now.date.text
  unfold written accepted
  rw [sequence, seen]
  rfl

theorem Acts.answered {n k : Nat} {can mute : Prop} {after base : Service}
    (h : Acts (writeEvent host e) m n can () after mute base) (count : after.writer.sequence = k) :
    Acts (do
      writeEvent host e
      return Response.ack e.eventId e.committedAt e.prevHash (← get).service.writer.sequence) m n can
      (.ack e.eventId e.committedAt e.prevHash k) after mute base := by
  cases count
  exact h.then_ (fun _ => rfl) (Nat.le_refl _)

theorem turned_empty {s : Service} (none : s.writer.beBuffer = []) (date : String) :
    Same s (turned s date) := by
  unfold turned
  split
  · rw [none]
    exact ⟨rfl, none.symm, rfl, rfl, rfl⟩
  · exact .refl s

theorem turned_buffer {s : Service} (turn : now.date.text ≠ s.writer.currentDate) :
    (turned s now.date.text).writer.beBuffer = [] := by
  rw [turned, if_pos turn]

/-- The service after a failure without a trace; it may have turned to the day. -/
def resting (s : Service) (now : UtcTime) : Service :=
  if s.writer.beBuffer = [] then turned s now.date.text else s

/-- An event that is valid and not known. -/
theorem accept_acts (tidy : Tidy m.service.writer) (valid : validateEvent host data = .ok none)
    (fresh : field data "source_event_id" ∉ m.service.writer.seenSourceIds)
    (printed : Utf8.encodable (lineOf data eventId now.isoformat m.service.writer.prevHash) = true ↔
      Printable data) :
    Acts (handleEvent host data now eventId) m (operations m.service data now) (Printable data)
      (.ack eventId now.isoformat m.service.writer.prevHash (m.service.writer.sequence + 1))
      (accepted host m.service data now eventId) (Traceless m.service data now m.fates)
      (resting m.service now) := by
  have day := isoformat_date now
  have line : Utf8.encodable (eventOf m.service.writer data now eventId).jsonLine = true ↔
      Printable data := printed
  have unprinted : Utf8.encodable (eventOf m.service.writer data now eventId).jsonLine = false ↔
      ¬ Printable data := by rw [← line, Bool.not_eq_true]
  unfold handleEvent
  rw [valid]
  refine .read ?_
  rw [if_neg fresh, ← written_accepted m.service]
  have count : (written host (turned m.service now.date.text)
      (eventOf m.service.writer data now eventId) now.date.text).writer.sequence =
      m.service.writer.sequence + 1 := congrArg (· + 1) (turned_state m.service _).2.1
  -- the event is written after the writer has turned to its day
  have durably (durable_ : field data "durability" = .text "durable") (fates : List Fate)
      (none : (turned m.service now.date.text).writer.beBuffer = []) :
      Writes (writeEvent host (eventOf m.service.writer data now eventId))
        ⟨turned m.service now.date.text, fates⟩ 3 _ () _ _ := writeEvent_durable durable_ day none
  have buffering (bestEffort : field data "durability" ≠ .text "durable") (fates : List Fate) :
      Acts (writeEvent host (eventOf m.service.writer data now eventId))
        ⟨turned m.service now.date.text, fates⟩ 0 _ () _ _ _ := writeEvent_buffers bestEffort day
  cases buffer : m.service.writer.beBuffer with
  | nil =>
    have same := turned_empty buffer now.date.text
    have rests : resting m.service now = turned m.service now.date.text := if_pos buffer
    rw [rests]
    refine .skip (commitEvent_still _ (.inr buffer)) same ?_
    by_cases durable_ : field data "durability" = .text "durable"
    · have whole := (durably durable_ m.fates (same.buffer.trans buffer)).toActs
      refine (whole.answered count).congr ?_ line ?_ rfl
      · simp [operations, buffer, flushes, durable, durable_]
      · rw [unprinted, same.disk]
        simp [Traceless, buffer, durable, durable_, Machine.refuses]
    · refine ((buffering durable_ _).answered count).congr ?_ line ?_ rfl
      · simp [operations, buffer, flushes, durable, durable_]
      · simp [Traceless, buffer, durable, durable_]
  | cons x lines =>
    have dated : x.1 = m.service.writer.currentDate := tidy.dated x (by simp [buffer])
    have rests : resting m.service now = m.service := if_neg (by simp [buffer])
    rw [rests]
    by_cases turn : now.date.text = m.service.writer.currentDate
    · have still : turned m.service now.date.text = m.service := if_neg (not_not.mpr turn)
      refine .skip (commitEvent_still _ (.inl turn)) (by rw [still]; exact .refl _) ?_
      rw [still] at count buffering ⊢
      by_cases durable_ : field data "durability" = .text "durable"
      · have whole : Writes (writeEvent host (eventOf m.service.writer data now eventId)) m _ _ () _ _ :=
          writeEvent_flushing durable_ day buffer tidy.plain
        refine (whole.toActs.answered count).congr ?_ line ?_ rfl
        · simp [operations, flushing, durable, durable_]
        · rw [dated]
          simp [Traceless, buffer, flushing, durable, durable_, Machine.blocks, Machine.refuses]
      · refine ((buffering durable_ _).answered count).congr ?_ line ?_ rfl
        · simp [operations, flushing, durable, durable_, turn]
        · simp [Traceless, buffer, flushing, durable, durable_, turn]
    · have commit : Writes (commitEvent (field data) now eventId) m _ True _ _ _ :=
        commitEvent_flushing _ turn buffer tidy.plain
      by_cases durable_ : field data "durability" = .text "durable"
      · have whole := (durably durable_ (m.fates.drop (flushes m.service.writer.beBuffer.length))
          (turned_buffer turn)).toActs.answered count
        refine (commit.bind whole).toActs.congr ?_ (by simpa using line) ?_ rfl
        · simp [operations, flushing, durable, durable_]
        · rw [dated]
          simp [Traceless, buffer, flushing, durable, durable_, Machine.blocks, Machine.refuses]
      · have whole := (buffering durable_ (m.fates.drop (flushes m.service.writer.beBuffer.length))).answered
          count
        refine (commit.bind whole).toActs.congr ?_ (by simpa using line) ?_ rfl
        · simp [operations, flushing, durable, durable_, turn]
        · rw [dated]
          simp [Traceless, buffer, flushing, turn, Machine.blocks, Machine.refuses]

end Events

section Handling

variable {host : Host} {m : Machine} {data : Json} {now : UtcTime} {eventId : Uuid7}

/-- The line of an event can be encoded when the fields that it copies can. -/
theorem encodable_lineOf {prevHash : PyStr} (digest : Utf8.encodable prevHash = true)
    (committedAt : String) : Utf8.encodable (lineOf data eventId committedAt prevHash) = true ↔
      Printable data := by
  have written : Utf8.encodable (lineOf data eventId committedAt prevHash) =
      (Json.obj (committedEvent (field data) eventId committedAt prevHash).toDict).encodable :=
    Loads.encodable_dumps _
  have text (s : String) : (Json.text s).encodable = true := encodable_py
  have hash : (Json.str prevHash).encodable = true := digest
  rw [written, Json.encodable, Json.encodableFields_iff]
  constructor
  · intro h name mem
    have value (name : String) (there : (Lib.py name, field data name) ∈
        (committedEvent (field data) eventId committedAt prevHash).toDict) :
        (field data name).encodable = true := (h _ there).2
    simp only [copied, List.mem_cons, List.not_mem_nil, or_false] at mem
    rcases mem with rfl | rfl | rfl | rfl | rfl | rfl | rfl | rfl | rfl | rfl | rfl
    all_goals exact value _ (by simp [CommittedEvent.toDict, committedEvent])
  · intro h f mem
    simp only [CommittedEvent.toDict, committedEvent, List.mem_cons, List.not_mem_nil, or_false] at mem
    rcases mem with rfl | rfl | rfl | rfl | rfl | rfl | rfl | rfl | rfl | rfl | rfl | rfl | rfl | rfl
    all_goals first
      | exact ⟨encodable_py, h _ (by simp [copied])⟩
      | exact ⟨encodable_py, text _⟩
      | exact ⟨encodable_py, hash⟩

/-- The ways in which a message is handled. -/
inductive Handled (host : Host) (m : Machine) (data : Json) (now : UtcTime) (eventId : Uuid7) :
    EStateM.Result Thrown Machine Response → Prop
  | accepted (valid : validateEvent host data = .ok none)
      (fresh : field data "source_event_id" ∉ m.service.writer.seenSourceIds)
      (printable : Printable data) (quiet : Quiet (operations m.service data now) m.fates) :
      Handled host m data now eventId
        (.ok (.ack eventId now.isoformat m.service.writer.prevHash (m.service.writer.sequence + 1))
          ⟨accepted host m.service data now eventId,
            m.fates.drop (operations m.service data now)⟩)
  | refused {message} (invalid : validateEvent host data = .ok (some message)) :
      Handled host m data now eventId (.ok (.error message) m)
  | known (seen : field data "source_event_id" ∈ m.service.writer.seenSourceIds) :
      Handled host m data now eventId (.ok (.duplicate (field data "source_event_id")) m)
  | thrown {fault} (raised : validateEvent host data = .error fault) :
      Handled host m data now eventId (.error (.raised fault) m)
  | failed {fault m'} (valid : validateEvent host data = .ok none)
      (fresh : field data "source_event_id" ∉ m.service.writer.seenSourceIds)
      (broken : ¬ (Printable data ∧ Quiet (operations m.service data now) m.fates))
      (same : Same m.service m'.service ↔ Traceless m.service data now m.fates)
      (rests : Traceless m.service data now m.fates → m'.service = resting m.service now) :
      Handled host m data now eventId (.error fault m')

variable (host data) in
theorem handled (tidy : Tidy m.service.writer)
    (digest : Utf8.encodable m.service.writer.prevHash = true) (now : UtcTime) (eventId : Uuid7) :
    Handled host m data now eventId (handleEvent host data now eventId m) := by
  match valid : validateEvent host data with
  | .error fault =>
    have eq : handleEvent host data now eventId m = .error (.raised fault) m := by
      unfold handleEvent
      rw [valid]
      rfl
    rw [eq]
    exact .thrown valid
  | .ok (some message) =>
    have eq : handleEvent host data now eventId m = .ok (.error message) m := by
      unfold handleEvent
      rw [valid]
      rfl
    rw [eq]
    exact .refused valid
  | .ok none =>
    by_cases seen : field data "source_event_id" ∈ m.service.writer.seenSourceIds
    · have eq : handleEvent host data now eventId m =
          .ok (.duplicate (field data "source_event_id")) m := by
        unfold handleEvent
        rw [valid]
        dsimp only
        rw [run_get, if_pos seen]
        rfl
      rw [eq]
      exact .known seen
    · have acts := accept_acts tidy valid seen (@encodable_lineOf data eventId _ digest now.isoformat)
      by_cases whole : Printable data ∧ Quiet (operations m.service data now) m.fates
      · rw [acts.ok whole.1 whole.2]
        exact .accepted valid seen whole.1 whole.2
      · obtain ⟨fault, m', raised, -, same, rests⟩ := acts.error whole
        rw [raised]
        exact .failed valid seen whole same rests

/-- An event is handled as a whole or not at all just if it is spared. -/
theorem atomic_iff_spared (tidy : Tidy m.service.writer)
    (digest : Utf8.encodable m.service.writer.prevHash = true) (now : UtcTime) (eventId : Uuid7) :
    Atomic m.service (handleEvent host data now eventId m) ↔
      Spared host m.service data now m.fates := by
  unfold Spared
  have ways := handled host data tidy digest now eventId
  generalize handleEvent host data now eventId m = r at ways ⊢
  cases ways with
  | accepted valid fresh printable quiet =>
    exact iff_of_true trivial (.inr (.inr (.inl ⟨printable, quiet⟩)))
  | refused invalid => exact iff_of_true (.refl _) (.inl (by simp [invalid]))
  | known seen => exact iff_of_true (.refl _) (.inr (.inl seen))
  | thrown raised => exact iff_of_true (.refl _) (.inl (by simp [raised]))
  | failed valid fresh broken same rests =>
    show Same _ _ ↔ _
    rw [same]
    constructor
    · exact fun traceless => .inr (.inr (.inr traceless))
    · rintro (invalid | seen | whole | traceless)
      · exact absurd valid invalid
      · exact absurd seen fresh
      · exact absurd whole broken
      · exact traceless

end Handling

end Drnt.Audit.Faults
