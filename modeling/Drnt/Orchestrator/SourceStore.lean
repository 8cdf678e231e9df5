import Drnt.Orchestrator.Submit
import Drnt.Lib.Drive

/-! The source events of several processes that share one database: each process has its own
instance of the idempotency store, and their SQL statements interleave. -/
namespace Drnt.Orchestrator.SourceStore

open Lib Lib.Coop

abbrev Process := Nat

/-- The store object of one process. -/
structure Instance where
  records : Dict String SourceEventRecord
  locked : Bool

/-- History: the reservations that were reported as new, and those that were rolled back. -/
inductive Note
  | granted (key : String) (j : JobId)
  | released (key : String) (j : JobId)
  deriving DecidableEq, Repr

structure Shared where
  rows : Dict String SourceEventRecord
  instances : Dict Process Instance
  trace : List Note

namespace Shared

@[simps] def insertRow (s : Shared) (key : String) (r : SourceEventRecord) : Shared :=
  { s with rows := s.rows.set key r }

@[simps] def deleteRow (s : Shared) (key : String) (j : JobId) : Shared :=
  { s with
    rows := s.rows.filter fun k r => !(k = key && r.jobId = j)
    trace := s.trace ++ [.released key j] }

@[simps] def grant (s : Shared) (key : String) (j : JobId) : Shared :=
  { s with trace := s.trace ++ [.granted key j] }

@[simps] def construct (s : Shared) (p : Process) (records : Dict String SourceEventRecord) :
    Shared :=
  { s with instances := s.instances.set p ⟨records, false⟩ }

@[simps] def setLock (s : Shared) (p : Process) (b : Bool) : Shared :=
  { s with instances := s.instances.modify p fun i => { i with locked := b } }

@[simps] def cache (s : Shared) (p : Process) (key : String) (r : SourceEventRecord) : Shared :=
  { s with
    instances := s.instances.modify p fun i => { i with records := i.records.set key r } }

@[simps] def forget (s : Shared) (p : Process) (key : String) (j : JobId) : Shared :=
  { s with
    instances := s.instances.modify p fun i =>
      { i with records := i.records.filter fun k r => !(k = key && r.jobId = j) } }

/-- What an instance has in memory. -/
def cached (s : Shared) (p : Process) (key : String) : Option SourceEventRecord :=
  (s.instances.get? p).bind fun i => i.records.get? key

end Shared

/-- The SQL statements, the lock of an instance, and the point where a call is overtaken by
other processes before it returns. -/
inductive Req
  | lock (p : Process)
  | insert (key : String)
  | select (p : Process) (key : String)
  | delete (key : String) (j : JobId)
  | selectAll
  | overtaken

def Ans : Req → Type
  | .insert _ => Bool
  | .select _ _ => Option SourceEventRecord
  | .selectAll => Dict String SourceEventRecord
  | .lock _ | .delete _ _ | .overtaken => Unit

abbrev sig : Sig where
  State := Shared
  Req := Req
  Ans := Ans
  suspends _ := true
  Exc := Empty

abbrev Program (α : Type) := Co sig α

def update (f : Shared → Shared) : Program Unit := Co.modify f

def perform (q : Req) : Program (Ans q) := Co.perform (S := sig) q

/-- The body of a method under the lock of its instance. -/
def withLock {α : Type} (p : Process) (critical : Program α) : Program α := do
  let _ : Unit ← perform (.lock p)
  update (·.setLock p true)
  let a ← critical
  let _ : Unit ← perform .overtaken
  update (·.setLock p false)
  return a

/-- _db_try_insert_source_event: whether this call inserted the row. -/
def dbTryInsertSourceEvent (key : String) (record : SourceEventRecord) : Program Bool := do
  let inserted : Bool ← perform (.insert key)
  if inserted then
    update (·.insertRow key record)
  return inserted

/-- _db_delete_source_event: compare and delete. -/
def dbDeleteSourceEvent (key : String) (j : JobId) : Program Unit := do
  let _ : Unit ← perform (.delete key j)
  update (·.deleteRow key j)

def classify (p : Process) (key : String) (record : SourceEventRecord) :
    Program (SourceVerdict × SourceEventRecord) := do
  if ← dbTryInsertSourceEvent key record then
    update (·.cache p key record)
    return (.new, record)
  else
    let row : Option SourceEventRecord ← perform (.select p key)
    match row.or ((← Co.read (S := sig)).cached p key) with
    | some existing =>
      update (·.cache p key existing)
      if existing.intentEquivalenceHash = record.intentEquivalenceHash then
        return (.equivalent, existing)
      else
        return (.conflict, existing)
    | none =>
      update (·.cache p key record)
      return (.new, record)

def checkAndStoreSourceEvent (p : Process) (record : SourceEventRecord) :
    Program (SourceVerdict × SourceEventRecord) := do
  let key := sourceEventKey record.clientSource record.clientSourceEventId
  let (verdict, existing) ← withLock p (classify p key record)
  if verdict = .new then
    update (·.grant key record.jobId)
  return (verdict, existing)

def releaseSourceEvent (p : Process) (clientSource clientSourceEventId : String) (j : JobId) :
    Program Unit := do
  let key := sourceEventKey clientSource clientSourceEventId
  withLock p do
    update (·.forget p key j)
    dbDeleteSourceEvent key j

/-- _load_from_db, for the source events. -/
def loadFromDb (p : Process) : Program Unit := do
  let rows : Dict String SourceEventRecord ← perform .selectAll
  update (·.construct p rows)

inductive Call
  | construct (p : Process)
  | check (p : Process) (record : SourceEventRecord)
  | release (p : Process) (clientSource clientSourceEventId : String) (j : JobId)

def Call.Res : Call → Type
  | check _ _ => SourceVerdict × SourceEventRecord
  | construct _ | release _ _ _ _ => Unit

def body : (t : Call) → Program t.Res
  | .construct p => loadFromDb p
  | .check p record => checkAndStoreSourceEvent p record
  | .release p clientSource clientSourceEventId j =>
      releaseSourceEvent p clientSource clientSourceEventId j

/-- A method is called on an instance that has been constructed. -/
def mayStart (s : Shared) : Call → Prop
  | .construct p => s.instances.get? p = none
  | .check p _ | .release p _ _ _ => (s.instances.get? p).isSome

/-- Every statement succeeds: an insert takes place unless the key has a row, and a select
returns what is there. -/
def mayAnswer (s : Shared) : (q : Req) → Ans q → Prop
  | .lock p, _ => (s.instances.get? p).any (·.locked) = false
  | .insert key, (a : Bool) => a = (s.rows.get? key).isNone
  | .select _ key, (a : Option SourceEventRecord) => a = s.rows.get? key
  | .selectAll, (a : Dict String SourceEventRecord) => a = s.rows
  | .delete _ _, _ | .overtaken, _ => True

/-- A process that dies is one whose calls do not go on; a crash is the end of them all. -/
abbrev stores : Machine sig where
  Tag := Call
  Res := Call.Res
  body := body
  starts := mayStart
  answers := mayAnswer
  reboot s s' := s' = { s with instances := ∅ }

abbrev recordKey (r : SourceEventRecord) : String :=
  sourceEventKey r.clientSource r.clientSourceEventId

section Alone

/-- The store of one process, as the orchestrator's own model has it. -/
def Shows (p : Process) (s : Shared) (w : World) : Prop :=
  (∃ db, w.db = some db ∧ db.sourceEventRecords = s.rows) ∧
    s.instances.get? p = some ⟨w.sourceEventRecords, false⟩

variable {p : Process} {s s' : Shared} {w w' : World}

theorem Shows.grant {key : String} {j : JobId} (h : Shows p s w) : Shows p (s.grant key j) w := h

theorem Shows.cache {key : String} {r : SourceEventRecord} (h : Shows p s w) :
    Shows p (((s.setLock p true).cache p key r).setLock p false) (w.cacheSource key r) := by
  refine ⟨h.1, ?_⟩
  simp [Dict.get?_modify_self, h.2]

theorem Shows.reserve {key : String} {r : SourceEventRecord} (h : Shows p s w) :
    Shows p ((((s.setLock p true).insertRow key r).cache p key r).setLock p false)
      (w.reserveSource key r) := by
  obtain ⟨⟨db, hdb, rows⟩, here⟩ := h
  refine ⟨⟨{ db with sourceEventRecords := db.sourceEventRecords.set key r }, ?_, ?_⟩, ?_⟩
  · simp [hdb]
  · simp [rows]
  · simp [Dict.get?_modify_self, here]

theorem classify_alone {r existing : SourceEventRecord} {verdict : SourceVerdict}
    (shows : Shows p s w) (out : (classify p (recordKey r) r).Outcome mayAnswer (s.setLock p true)
      (.ok (verdict, existing)) s') :
    ∃ w', (Orchestrator.checkAndStoreSourceEvent r).Outcome (fun _ _ _ => True) w
      (.ok (verdict, existing)) w' ∧ Shows p (s'.setLock p false) w' := by
  obtain ⟨db, hdb, rows⟩ := shows.1
  obtain ⟨inserted, asked, rest⟩ := out
  have asked : inserted = (s.rows.get? (recordKey r)).isNone := asked
  have inserts : w.insertsSource (recordKey r) = inserted := by
    simp [World.insertsSource, hdb, rows, asked]
  cases inserted with
  | true =>
    obtain ⟨eq, rfl⟩ := rest
    cases eq
    refine ⟨w.reserveSource (recordKey r) r, outcome_world.mpr ?_, shows.reserve⟩
    dsimp only
    rw [if_pos inserts]
    exact ⟨rfl, rfl⟩
  | false =>
    obtain ⟨row, read, rest⟩ := rest
    have read : row = s.rows.get? (recordKey r) := read
    have same : row.or ((s.setLock p true).cached p (recordKey r)) = w.sourceRecord? (recordKey r) := by
      simp only [World.sourceRecord?, hdb, rows, read, Shared.cached, Option.bind_some]
      cases s.rows.get? (recordKey r) with
      | some _ => simp
      | none => simp [Dict.get?_modify_self, shows.2]
    cases found : w.sourceRecord? (recordKey r) with
    | some known =>
      simp only [Co.bind, Co.read, Co.Outcome, Co.bind_eq, same, found] at rest
      by_cases intent : known.intentEquivalenceHash = r.intentEquivalenceHash
      · rw [if_pos intent] at rest
        obtain ⟨eq, rfl⟩ := rest
        cases eq
        refine ⟨w.cacheSource (recordKey r) existing, outcome_world.mpr ?_, shows.cache⟩
        dsimp only
        rw [if_neg (by simp [inserts]), found]
        dsimp only
        rw [if_pos intent]
        exact ⟨rfl, rfl⟩
      · rw [if_neg intent] at rest
        obtain ⟨eq, rfl⟩ := rest
        cases eq
        refine ⟨w.cacheSource (recordKey r) existing, outcome_world.mpr ?_, shows.cache⟩
        dsimp only
        rw [if_neg (by simp [inserts]), found]
        dsimp only
        rw [if_neg intent]
        exact ⟨rfl, rfl⟩
    | none =>
      simp only [Co.bind, Co.read, Co.Outcome, Co.bind_eq, same, found] at rest
      obtain ⟨eq, rfl⟩ := rest
      cases eq
      refine ⟨w.cacheSource (recordKey r) r, outcome_world.mpr ?_, shows.cache⟩
      dsimp only
      rw [if_neg (by simp [inserts]), found]
      exact ⟨rfl, rfl⟩

/-- A check that no other process comes between is the one of a single process. -/
theorem check_alone {r existing : SourceEventRecord} {verdict : SourceVerdict}
    (shows : Shows p s w)
    (out : (checkAndStoreSourceEvent p r).Outcome mayAnswer s (.ok (verdict, existing)) s') :
    ∃ w', (Orchestrator.checkAndStoreSourceEvent r).Outcome (fun _ _ _ => True) w
      (.ok (verdict, existing)) w' ∧ Shows p s' w' := by
  have locked {s₁ : Shared} {res : Except Empty (SourceVerdict × SourceEventRecord)}
      (h : (withLock p (classify p (recordKey r) r)).Outcome mayAnswer s res s₁) :
      ∃ s₂, (classify p (recordKey r) r).Outcome mayAnswer (s.setLock p true) res s₂ ∧
        s₁ = s₂.setLock p false := by
    obtain ⟨⟨⟩, -, h⟩ := h
    change ((classify p (recordKey r) r).bind _).Outcome mayAnswer (s.setLock p true) res s₁ at h
    rcases Co.outcome_bind.mp h with ⟨a, s₂, first, ⟨⟩, -, eq, rfl⟩ | ⟨e, -, -⟩
    · exact ⟨s₂, eq ▸ first, rfl⟩
    · exact e.elim
  rcases Co.outcome_bind.mp out with ⟨⟨v, known⟩, s₁, first, rest⟩ | ⟨e, -, -⟩
  · obtain ⟨s₂, classified, rfl⟩ := locked first
    obtain ⟨w', out', shows'⟩ := classify_alone shows classified
    dsimp only at rest
    split at rest
    · obtain ⟨eq, rfl⟩ := rest
      cases eq
      exact ⟨w', out', shows'.grant⟩
    · obtain ⟨eq, rfl⟩ := rest
      cases eq
      exact ⟨w', out', shows'⟩
  · exact e.elim

end Alone

section Arbitration

/-- Who holds the key after one more entry of the history. -/
def holdersAfter (key : String) (holders : List JobId) : Note → List JobId
  | .granted k j => if k = key then j :: holders else holders
  | .released k j => if k = key then holders.filter (· ≠ j) else holders

/-- The jobs whose reservation of the key was reported as new and is not released. -/
def Shared.holders (s : Shared) (key : String) : List JobId := s.trace.foldl (holdersAfter key) []

/-- A call that reports a key as new: the row of the key maps to its job, and no reservation
of the key is held. -/
def FirstWriter (c : Config stores) (_ : Label stores) (c' : Config stores) : Prop :=
  ∀ key j, c'.state.trace = c.state.trace ++ [.granted key j] →
    (∃ r, c'.state.rows.get? key = some r ∧ r.jobId = j) ∧ c.state.holders key = []

def Call.job? : Call → Option JobId
  | construct _ => none
  | check _ record => some record.jobId
  | release _ _ _ j => some j

/-- The calls that name one job do not overlap: a job id belongs to one submission, which makes
its calls one after the other. -/
def Sequential (c : Config stores) : Label stores → Prop
  | .start t => ∀ t', c.InFlight t' → ∀ j, t.job? = some j → t'.job? ≠ some j
  | .answer _ _ _ | .work _ | .crash => True

/-- A select comes after a lost insert: it still finds a row, or else the instance has the
mapping in memory. -/
def Found (s : Shared) : Req → Prop
  | .select p key => s.rows.get? key ≠ none ∨ s.cached p key ≠ none
  | .lock _ | .insert _ | .delete _ _ | .selectAll | .overtaken => True

def Settled (c : Config stores) (l : Label stores) : Prop :=
  Sequential c l ∧ match l with
    | .answer _ q _ => Found c.state q
    | .start _ | .work _ | .crash => True

variable {s : Shared} {key k : String} {j : JobId} {r : SourceEventRecord}

@[simp] theorem holders_grant :
    (s.grant key j).holders k = if key = k then j :: s.holders k else s.holders k := by
  simp [Shared.holders, holdersAfter, List.foldl_append]

@[simp] theorem holders_deleteRow : (s.deleteRow key j).holders k =
    if key = k then (s.holders k).filter (· ≠ j) else s.holders k := by
  simp [Shared.holders, holdersAfter, List.foldl_append]

theorem holders_of_trace {s' : Shared} (h : s'.trace = s.trace) : s'.holders k = s.holders k := by
  rw [Shared.holders, h, Shared.holders]

/-- How far a call has come: a check has lost its insert or not made it yet, or it has won. -/
inductive Stage
  | loading
  | checking (r : SourceEventRecord)
  | won (r : SourceEventRecord)
  | releasing (key : String) (j : JobId)
  | done

def Stage.job? : Stage → Option JobId
  | checking r | won r => some r.jobId
  | releasing _ j => some j
  | loading | done => none

inductive Move : Stage → Shared → Stage → Shared → Prop
  | aside {τ : Stage} {s s' : Shared} (rows : s'.rows = s.rows) (trace : s'.trace = s.trace) :
      Move τ s τ s'
  | insert {r : SourceEventRecord} {s : Shared} (free : s.rows.get? (recordKey r) = none) :
      Move (.checking r) s (.won r) (s.insertRow (recordKey r) r)
  | grant {r : SourceEventRecord} {s : Shared} :
      Move (.won r) s .done (s.grant (recordKey r) r.jobId)
  | delete {key : String} {j : JobId} {s : Shared} :
      Move (.releasing key j) s .done (s.deleteRow key j)

def first : Call → Shared → Stage
  | .construct _, _ => .loading
  | .check _ r, _ => .checking r
  | .release _ clientSource clientSourceEventId j, _ =>
      .releasing (sourceEventKey clientSource clientSourceEventId) j

abbrev plan : Plan stores where
  Tok := Stage
  move := Move
  parks _ := True
  grows _ _ := True
  admits s q a := mayAnswer s q a ∧ Found s q
  grows_refl _ := trivial
  grows_trans _ _ := trivial
  move_grows _ := trivial
  first := first
  ends _ _ _ _ := True
  retire _ := .done
  retire_parks _ := trivial

section Sound

variable {α : Type} {τ : Stage} {p : Process}
  {Φ : Except Empty α → Stage → Shared → Prop}

theorem follows_withLock {critical : Program α}
    (h : ∀ s, Follows plan.toDiscipline τ s critical fun res τ' _ => ∀ s', Φ res τ' s') :
    Follows plan.toDiscipline τ s (withLock p critical) Φ := by
  refine ⟨fun _ => trivial, fun s₁ _ _ _ => ⟨τ, .aside rfl rfl, ?_⟩⟩
  change Follows plan.toDiscipline τ _ (critical.bind _) Φ
  refine follows_bind ((h _).mono ?_)
  rintro (e | a) τ' s' post
  · exact e.elim
  · exact ⟨fun _ => trivial, fun s₂ _ _ _ => ⟨τ', .aside rfl rfl, post _⟩⟩

/-- A check reports a key as new only after it has won the insert. -/
theorem follows_classify (s : Shared) : Follows plan.toDiscipline (.checking r) s
    (classify p (recordKey r) r) fun res τ' _ =>
      ∀ verdict existing, res = .ok (verdict, existing) → verdict = .new → τ' = .won r := by
  refine ⟨fun _ => trivial, fun s₁ _ inserted admitted => ?_⟩
  cases inserted with
  | true =>
    have free : s₁.rows.get? (recordKey r) = none := by
      have asked : true = (s₁.rows.get? (recordKey r)).isNone := admitted.1
      simpa using asked.symm
    exact ⟨.won r, .insert free, .won r, .aside rfl rfl, fun _ _ _ _ => rfl⟩
  | false =>
    refine ⟨fun _ => trivial, fun s₂ _ row found => ?_⟩
    have read : row = s₂.rows.get? (recordKey r) := found.1
    have there : ∃ existing, row.or (s₂.cached p (recordKey r)) = some existing := by
      rw [← Option.ne_none_iff_exists']
      intro none
      obtain ⟨h₁, h₂⟩ := Option.or_eq_none_iff.mp none
      rcases found.2 with here | here
      · exact here (read ▸ h₁)
      · exact here h₂
    obtain ⟨existing, eq⟩ := there
    have known (w : SourceVerdict) (hw : w ≠ .new) : Follows plan.toDiscipline (.checking r) s₂
        (do update (·.cache p (recordKey r) existing); return (w, existing)) fun res τ' _ =>
          ∀ verdict existing, res = .ok (verdict, existing) → verdict = .new → τ' = .won r :=
      ⟨.checking r, .aside rfl rfl, fun verdict _ eq new => by cases eq; exact absurd new hw⟩
    change Follows plan.toDiscipline _ s₂ (Co.read.bind _) _
    simp only [Co.read, Co.bind, Follows, eq]
    by_cases same : existing.intentEquivalenceHash = r.intentEquivalenceHash
    · rw [if_pos same]
      exact known .equivalent (by simp)
    · rw [if_neg same]
      exact known .conflict (by simp)

theorem follows_check (s : Shared) : Follows plan.toDiscipline (.checking r) s
    (checkAndStoreSourceEvent p r) fun _ _ _ => True := by
  refine follows_bind (follows_withLock fun s => (follows_classify s).mono ?_)
  rintro (e | ⟨verdict, existing⟩) τ s₁ post s₂
  · exact e.elim
  · dsimp only
    split
    · rename_i new
      rw [post verdict existing rfl new]
      exact ⟨.done, .grant, trivial⟩
    · trivial

theorem plan_sound : plan.SoundUnder Settled where
  follows {c t} _ _ := by
    cases t with
    | construct p => exact ⟨fun _ => trivial, fun _ _ _ _ => ⟨_, .aside rfl rfl, trivial⟩⟩
    | check p r => exact follows_check c.state
    | release p clientSource clientSourceEventId j =>
      refine follows_withLock fun s => ⟨_, .aside rfl rfl, fun _ => trivial, fun _ _ _ _ => ?_⟩
      exact ⟨.done, .delete, fun _ => trivial⟩
  answers meets ans := ⟨ans, meets.2⟩

end Sound

/-- A reservation that is held, or won and not yet reported, has the row of its key; and at
most one of the calls that name a job is still under way. -/
structure Inv (s : Shared) (toks : plan.Toks) : Prop where
  fits : ∀ {i : Nat} {t : Call} {τ : Stage}, toks[i]? = some (t, τ) → τ.job? = none ∨ τ.job? = t.job?
  alone : ∀ {i k : Nat} {t u : Call} {τ υ : Stage} {j : JobId}, i ≠ k → toks[i]? = some (t, τ) →
    toks[k]? = some (u, υ) → τ.job? = some j → υ.job? ≠ some j
  held : ∀ {key : String} {j : JobId}, j ∈ s.holders key →
    ∃ r, s.rows.get? key = some r ∧ r.jobId = j
  won : ∀ {i : Nat} {t : Call} {r : SourceEventRecord}, toks[i]? = some (t, .won r) →
    (∃ r', s.rows.get? (recordKey r) = some r' ∧ r'.jobId = r.jobId) ∧ s.holders (recordKey r) = []

namespace Inv

variable {toks : plan.Toks} {c : Config stores} {s' : Shared} {i : Nat} {t : Call} {τ τ' : Stage}

theorem start (inv : Inv c.state toks) (tracks : plan.Tracks c toks) (idle : c.running = none)
    (meets : Sequential c (.start t)) : Inv c.state (toks ++ [(t, first t c.state)]) := by
  have newest {k : Nat} {u : Call} {υ : Stage}
      (h : (toks ++ [(t, first t c.state)])[k]? = some (u, υ)) :
      toks[k]? = some (u, υ) ∨ k = toks.length ∧ u = t ∧ υ = first t c.state := by
    rcases Nat.lt_trichotomy k toks.length with lt | rfl | gt
    · rw [List.getElem?_append_left lt] at h
      exact .inl h
    · rw [List.getElem?_concat_length] at h
      cases h
      exact .inr ⟨rfl, rfl, rfl⟩
    · rw [List.getElem?_eq_none (by simp; omega)] at h
      cases h
  have named : (first t c.state).job? = t.job? := by cases t <;> rfl
  have apart {k : Nat} {u : Call} {υ : Stage} {j : JobId} (old : toks[k]? = some (u, υ))
      (hj : t.job? = some j) : υ.job? ≠ some j := by
    intro busy
    have live : ∀ τ₀, υ ≠ plan.retire τ₀ := by
      rintro _ rfl
      cases busy
    have going : c.InFlight u := tracks.unfinished old (by simp [idle]) live
    rcases inv.fits old with none | eq
    · rw [none] at busy
      cases busy
    · exact meets u going j hj (eq ▸ busy)
  constructor
  case fits =>
    intro k u υ at_
    rcases newest at_ with old | ⟨-, rfl, rfl⟩
    · exact inv.fits old
    · exact .inr named
  case alone =>
    intro k l u v υ ω j ne hk hl busy
    rcases newest hk with old | ⟨rfl, rfl, rfl⟩ <;> rcases newest hl with old' | ⟨rfl, rfl, rfl⟩
    · exact inv.alone ne old old' busy
    · intro other
      exact apart old (named ▸ other) busy
    · exact apart old' (named ▸ busy)
    · exact absurd rfl ne
  case held => exact inv.held
  case won =>
    intro k u r at_
    rcases newest at_ with old | ⟨-, -, eq⟩
    · exact inv.won old
    · cases t <;> cases eq

theorem mem_set {k : Nat} {u : Call} {υ : Stage}
    (h : (toks.set i (t, τ'))[k]? = some (u, υ)) :
    k = i ∧ u = t ∧ υ = τ' ∨ k ≠ i ∧ toks[k]? = some (u, υ) := by
  by_cases same : i = k
  · subst same
    have bound : i < toks.length := by simpa using (List.getElem?_eq_some_iff.mp h).1
    rw [List.getElem?_set_self bound] at h
    cases h
    exact .inl ⟨rfl, rfl, rfl⟩
  · rw [List.getElem?_set_ne same] at h
    exact .inr ⟨Ne.symm same, h⟩

/-- A stage that names no other job keeps the calls of each job apart. -/
theorem restage (inv : Inv s toks) (at_ : toks[i]? = some (t, τ))
    (job : τ'.job? = none ∨ τ'.job? = τ.job?)
    (held : ∀ {key : String} {j : JobId}, j ∈ s'.holders key →
      ∃ r, s'.rows.get? key = some r ∧ r.jobId = j)
    (won : ∀ {k : Nat} {u : Call} {r : SourceEventRecord},
      (toks.set i (t, τ'))[k]? = some (u, .won r) →
      (∃ r', s'.rows.get? (recordKey r) = some r' ∧ r'.jobId = r.jobId) ∧
        s'.holders (recordKey r) = []) : Inv s' (toks.set i (t, τ')) := by
  have named {j : JobId} (h : τ'.job? = some j) : τ.job? = some j := by
    rcases job with none | eq
    · rw [none] at h
      cases h
    · exact eq ▸ h
  constructor
  case fits =>
    intro k u υ h
    rcases mem_set h with ⟨rfl, rfl, rfl⟩ | ⟨-, old⟩
    · rcases job with none | eq
      · exact .inl none
      · rw [eq]
        exact inv.fits at_
    · exact inv.fits old
  case alone =>
    intro k l u v υ ω j ne hk hl busy
    rcases mem_set hk with ⟨rfl, rfl, rfl⟩ | ⟨_, old⟩ <;>
      rcases mem_set hl with ⟨rfl, rfl, rfl⟩ | ⟨_, old'⟩
    · exact absurd rfl ne
    · exact inv.alone ne at_ old' (named busy)
    · intro other
      exact inv.alone ne old at_ busy (named other)
    · exact inv.alone ne old old' busy
  case held => exact held
  case won => exact won

theorem move (inv : Inv s toks) (at_ : toks[i]? = some (t, τ)) (h : Move τ s τ' s') :
    Inv s' (toks.set i (t, τ')) := by
  cases h with
  | aside rows trace =>
    rw [Plan.set_self at_]
    refine ⟨inv.fits, inv.alone, fun hj => ?_, fun ht => ?_⟩
    · rw [rows]
      exact inv.held (holders_of_trace trace ▸ hj)
    · rw [rows, holders_of_trace trace]
      exact inv.won ht
  | @insert r _ free =>
    have vacant : s.holders (recordKey r) = [] := by
      rw [List.eq_nil_iff_forall_not_mem]
      intro j hj
      obtain ⟨_, row, _⟩ := inv.held hj
      rw [free] at row
      cases row
    refine inv.restage at_ (.inr rfl) (fun {key j} hj => ?_) (fun {k u r'} ht => ?_)
    · obtain ⟨r', row, job⟩ := inv.held hj
      have other : key ≠ recordKey r := by
        rintro rfl
        rw [free] at row
        cases row
      exact ⟨r', by simp [Dict.get?_set_ne _ other, row], job⟩
    · rcases mem_set ht with ⟨-, -, eq⟩ | ⟨-, old⟩
      · cases eq
        exact ⟨⟨r, by simp, rfl⟩, vacant⟩
      · obtain ⟨⟨r₀, row, job⟩, none⟩ := inv.won old
        have other : recordKey r' ≠ recordKey r := by
          intro eq
          rw [eq, free] at row
          cases row
        exact ⟨⟨r₀, by simp [Dict.get?_set_ne _ other, row], job⟩, none⟩
  | @grant r =>
    obtain ⟨⟨r₀, row, job⟩, vacant⟩ := inv.won at_
    refine inv.restage at_ (.inl rfl) (fun {key j} hj => ?_) (fun {k u r'} ht => ?_)
    · rw [holders_grant] at hj
      split at hj
      · rename_i eq
        rw [← eq, vacant, List.mem_singleton] at hj
        exact ⟨r₀, eq ▸ row, hj ▸ job⟩
      · exact inv.held hj
    · rcases mem_set ht with ⟨-, -, eq⟩ | ⟨ne, old⟩
      · cases eq
      · obtain ⟨⟨r₁, row', job'⟩, none⟩ := inv.won old
        have other : recordKey r ≠ recordKey r' := by
          intro eq
          rw [← eq, row] at row'
          cases row'
          exact inv.alone ne old at_ (j := r₀.jobId) (by simp [Stage.job?, job'])
            (by simp [Stage.job?, job])
        exact ⟨⟨r₁, row', job'⟩, by rw [holders_grant, if_neg other, none]⟩
  | @delete key j =>
    refine inv.restage at_ (.inl rfl) (fun {k i} hi => ?_) (fun {k u r} ht => ?_)
    · rw [holders_deleteRow] at hi
      have before : i ∈ s.holders k := by
        split at hi
        · exact List.mem_of_mem_filter hi
        · exact hi
      obtain ⟨r, row, job⟩ := inv.held before
      have kept : k ≠ key ∨ r.jobId ≠ j := by
        rw [← not_and_or]
        rintro ⟨rfl, rfl⟩
        simp [job] at hi
      exact ⟨r, by simpa [Dict.get?_filter, row] using kept, job⟩
    · rcases mem_set ht with ⟨-, -, eq⟩ | ⟨ne, old⟩
      · cases eq
      · obtain ⟨⟨r₀, row, job⟩, none⟩ := inv.won old
        have kept : recordKey r ≠ key ∨ r₀.jobId ≠ j := by
          rw [← not_and_or]
          rintro ⟨-, rfl⟩
          exact inv.alone ne old at_ (j := r₀.jobId) (by simp [Stage.job?, job]) rfl
        exact ⟨⟨r₀, by simpa [Dict.get?_filter, row] using kept, job⟩, by simp [none]⟩

end Inv

theorem inv_preserved : plan.Preserves Settled Inv where
  start tracks _ inv _ idle meets _ := inv.start tracks idle meets.1
  move _ inv _ _ at_ _ hm := inv.move at_ hm
  finish _ inv _ _ _ at_ _ :=
    inv.restage at_ (.inl rfl) inv.held fun ht => by
      rcases Inv.mem_set ht with ⟨-, -, eq⟩ | ⟨-, old⟩
      · cases eq
      · exact inv.won old
  crash _ _ inv _ again := by
    subst again
    exact ⟨by simp, by simp, inv.held, by simp⟩

/-- The database arbitrates: as long as no select that follows a lost insert finds the row gone
and nothing in memory, a call that reports a key as new is the only holder of the key, and the
row of the key maps to its job. -/
theorem first_writer (rows : Dict String SourceEventRecord) :
    Always stores Settled (.boot stores ⟨rows, ∅, []⟩) FirstWriter := by
  intro c l c' run meets next key j granted
  have initial : Inv (⟨rows, ∅, []⟩ : Shared) [] :=
    ⟨by simp, by simp, by simp [Shared.holders], by simp⟩
  obtain ⟨toks, tracks, inv⟩ :=
    Plan.reach plan_sound inv_preserved (Plan.tracks_boot _) initial run
  obtain ⟨_, _, _, effect⟩ := Plan.step_effect plan_sound inv_preserved tracks inv meets next
  have same {s' : Shared} (eq : s'.trace = c.state.trace) :
      s'.trace ≠ c.state.trace ++ [.granted key j] := by
    rw [eq]
    simp
  generalize c'.state = s' at granted effect ⊢
  cases effect with
  | start | quiet | finish => exact absurd granted (same rfl)
  | crash again => exact absurd granted (same (by rw [again]))
  | move at_ hm =>
    cases hm with
    | aside _ trace => exact absurd granted (same trace)
    | insert => exact absurd granted (same rfl)
    | grant =>
      simp only [Shared.grant_trace, List.append_cancel_left_eq, List.cons.injEq,
        Note.granted.injEq, and_true] at granted
      obtain ⟨rfl, rfl⟩ := granted
      exact inv.won at_
    | delete => simp at granted

end Arbitration

section Trial

variable {s : Shared}

instance (s : Shared) : DecidablePred (mayStart s)
  | .construct p => decidable_of_iff ((s.instances.get? p).isNone) (by simp [mayStart])
  | .check p _ | .release p _ _ _ => inferInstanceAs (Decidable ((s.instances.get? p).isSome))

/-- What the database answers; a lock is asked for when it is free. -/
def answer (s : Shared) : (q : Req) → Ans q
  | .insert key => (s.rows.get? key).isNone
  | .select _ key => s.rows.get? key
  | .selectAll => s.rows
  | .lock _ | .delete _ _ | .overtaken => ()

def accepts (s : Shared) : (q : Req) → Ans q → Bool
  | .lock p, _ => !(s.instances.get? p).any (·.locked)
  | .insert key, (a : Bool) => decide (a = (s.rows.get? key).isNone)
  | .select _ key, (a : Option SourceEventRecord) => decide (a = s.rows.get? key)
  | .selectAll, (a : Dict String SourceEventRecord) => decide (a.entries = s.rows.entries)
  | .delete _ _, _ | .overtaken, _ => true

theorem accepts_sound : ∀ {q : Req} {a : Ans q}, accepts s q a = true → mayAnswer s q a
  | .lock p, _, h => by
    simpa [accepts, mayAnswer] using h
  | .insert key, (a : Bool), h => of_decide_eq_true (p := a = (s.rows.get? key).isNone) h
  | .select _ key, (a : Option SourceEventRecord), h =>
      of_decide_eq_true (p := a = s.rows.get? key) h
  | .selectAll, ⟨_, _⟩, h => by
    cases s
    simpa [accepts, mayAnswer, Dict.ext_iff] using h
  | .delete _ _, _, _ | .overtaken, _, _ => trivial

def driver : Driver stores where
  answer := answer
  may s t := decide (mayStart s t)
  accepts := accepts
  restart s := { s with instances := ∅ }
  may_sound h := of_decide_eq_true h
  accepts_sound := accepts_sound
  restart_sound _ := rfl

/-- No two calls that name one job are under way. -/
def sequential (c : Config stores) : Label stores → Bool
  | .start t => c.threads.all fun th =>
      decide th.2.Finished || t.job?.isNone || decide (t.job? ≠ th.1.job?)
  | .answer _ _ _ | .work _ | .crash => true

theorem guards : Driver.Guards Sequential sequential := by
  intro c l h
  cases l with
  | start t =>
    rintro t' ⟨i, p, at_, unfinished⟩ j hj same
    have free := List.all_eq_true.mp h _ (List.mem_of_getElem? at_)
    simp [unfinished, hj, same] at free
  | answer | work | crash => trivial

def submission (n : Nat) : SourceEventRecord := ⟨⟨Fin.ofNat _ n, 0, 0⟩, "intent", "app", "event"⟩

/-- A call that is about to report a key as new, which has no row. -/
def grantsUnwritten (c : Config stores) : Bool :=
  match c.running, (c.threads[3]? : Option (Thread stores)) with
  | some 3, some ⟨Call.check _ r, Co.set s _⟩ =>
    decide (s.trace = c.state.trace ++ [.granted (recordKey r) r.jobId]) &&
      (s.rows.get? (recordKey r)).isNone
  | _, _ => false

/-- The first writer releases its reservation between the lost insert and the select of
another process: that one reports the key as new, without a row. -/
theorem unwritten_granted :
    ¬ Always stores Sequential (.boot stores ⟨∅, ∅, []⟩) FirstWriter := by
  have computed : ((driver.run sequential 50 [.start (.construct 0), .finish 0,
      .start (.construct 1), .finish 1, .start (.check 0 (submission 1)), .finish 2,
      .start (.check 1 (submission 2)), .resume 3, .resume 3,
      .start (.release 0 "app" "event" (submission 1).jobId), .finish 4,
      .resume 3, .pause 3 3] (.boot stores ⟨∅, ∅, []⟩)).any grantsUnwritten) = true := by
    decide +kernel
  obtain ⟨c, eq, seen⟩ := (Option.any_eq_true _ _).mp computed
  intro always
  unfold grantsUnwritten at seen
  split at seen
  · rename_i p r s k running at_
    simp only [Bool.and_eq_true, decide_eq_true_eq, Option.isNone_iff_eq_none] at seen
    have meets : Sequential c (.work 3) := trivial
    obtain ⟨⟨r', row, _⟩, -⟩ := always (Driver.run_reach guards eq) meets (.set running at_) _ _
      seen.1
    exact nomatch seen.2.symm.trans row
  · cases seen

end Trial

end Drnt.Orchestrator.SourceStore
