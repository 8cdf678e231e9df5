import Drnt.Orchestrator.Recovery

/-! The state table: submit keys, review outcomes, source events and the hub's state are rows
of one table, told apart by how their keys begin. -/
namespace Drnt.Orchestrator

open Lib

section Like

/-- One character under LIKE: `_` stands for any, and case does not matter. -/
def likeChar (p c : Char) : Bool := p = '_' || p.toLower = c.toLower

def likeStart : List Char → List Char → Bool
  | [], _ => true
  | _ :: _, [] => false
  | p :: ps, c :: cs => likeChar p c && likeStart ps cs

/-- `key LIKE start || '%'` -/
def like (start key : String) : Bool := likeStart start.toList key.toList

/-- `key[len(start):]` -/
def cut (start key : String) : String := String.ofList (key.toList.drop start.length)

/-- The two beginnings already differ in their first characters. -/
def apart (p q : String) : Bool :=
  (p.toList.head?.any fun a => q.toList.head?.any fun b => !likeChar a b)

variable {p q k k' : String}

theorem likeStart_append (ps cs : List Char) : likeStart ps (ps ++ cs) = true := by
  induction ps with
  | nil => rfl
  | cons p ps ih => simp [likeStart, likeChar, ih]

@[simp] theorem like_append (p k : String) : like p (p ++ k) = true := by
  rw [like, String.toList_append]
  exact likeStart_append _ _

@[simp] theorem cut_append (p k : String) : cut p (p ++ k) = k := by
  rw [cut, String.toList_append, ← String.length_toList, List.drop_left, String.ofList_toList]

theorem like_apart (h : apart p q = true) (k : String) : like p (q ++ k) = false := by
  rw [like, String.toList_append]
  unfold apart at h
  cases hp : p.toList with
  | nil => simp [hp] at h
  | cons a as =>
    cases hq : q.toList with
    | nil => simp [hp, hq] at h
    | cons b bs =>
      have differ : likeChar a b = false := by simpa [hp, hq] using h
      simp [likeStart, differ]

theorem append_ne (h : apart p q = true) : p ++ k ≠ q ++ k' := by
  intro same
  have := like_append p k
  rw [same, like_apart h] at this
  cases this

end Like

section Table

def keyPrefix : String := "idem:"
def reviewKeyPrefix : String := "review_idem:"
def sourceEventPrefix : String := "srcevent:"
def keyState : String := "hub:state"
def keyHeartbeat : String := "hub:last_heartbeat"

inductive StateValue
  | record (jobId : JobId)
  | review (r : ReviewIdempotencyRecord)
  | sourceEvent (r : SourceEventRecord)
  | hub (s : HubState)
  | heartbeat
  deriving DecidableEq, Repr

/-- `json_extract(value, '$.job_id')` -/
def StateValue.jobId? : StateValue → Option JobId
  | record j => some j
  | sourceEvent r => some r.jobId
  | review _ | hub _ | heartbeat => none

abbrev StateTable := Dict String StateValue

/-- `SELECT key, value FROM state WHERE key LIKE start || '%'`, each key without its
beginning. -/
def StateTable.select (t : StateTable) (start : String) : List (String × StateValue) :=
  (t.entries.filter fun e => like start e.1).map fun e => (cut start e.1, e.2)

/-- The DELETE of _purge_terminal_keys. -/
def StateTable.purgeTerminalKeys (t : StateTable) (jobs : Dict JobId Job) : StateTable :=
  t.filter fun key value => !(like keyPrefix key &&
    !(value.jobId?.bind jobs.get?).any fun row => row.status ∉ [.delivered, .failed])

/-- The rows that the stores of the process write: each record under its prefix. -/
inductive Database.Has (db : Database) : String → StateValue → Prop
  | record {k j} (h : db.records.get? k = some j) : Has db (keyPrefix ++ k) (.record j)
  | review {k r} (h : db.reviewRecords.get? k = some r) :
      Has db (reviewKeyPrefix ++ k) (.review r)
  | sourceEvent {k r} (h : db.sourceEventRecords.get? k = some r) :
      Has db (sourceEventPrefix ++ k) (.sourceEvent r)
  | hub {s} (h : db.hub = some s) : Has db keyState (.hub s)

/-- Apart from the client's heartbeat the table has the rows of the stores and no others. -/
def StateTable.Holds (t : StateTable) (db : Database) : Prop :=
  ∀ (key : String) (value : StateValue), key ≠ keyHeartbeat →
    (t.get? key = some value ↔ db.Has key value)

/-- What the constructors of the stores read from the table is what the world has. -/
structure StateTable.LoadedAs (t : StateTable) (w : World) : Prop where
  records : ∀ {k value}, (k, value) ∈ t.select keyPrefix ↔
    ∃ j, w.records.get? k = some j ∧ value = .record j
  reviews : ∀ {k value}, (k, value) ∈ t.select reviewKeyPrefix ↔
    ∃ r, w.reviewRecords.get? k = some r ∧ value = .review r
  sources : ∀ {k value}, (k, value) ∈ t.select sourceEventPrefix ↔
    ∃ r, w.sourceEventRecords.get? k = some r ∧ value = .sourceEvent r

variable {t : StateTable} {db : Database} {start k key : String} {value : StateValue}

theorem mem_select : (k, value) ∈ t.select start ↔
    ∃ key, t.get? key = some value ∧ like start key = true ∧ cut start key = k := by
  constructor
  · intro h
    obtain ⟨e, he, eq⟩ := List.mem_map.mp h
    obtain ⟨mem, found⟩ := List.mem_filter.mp he
    cases eq
    exact ⟨e.1, Dict.get?_eq_some_iff.mpr mem, found, rfl⟩
  · rintro ⟨key, row, found, rfl⟩
    exact List.mem_map.mpr
      ⟨(key, value), List.mem_filter.mpr ⟨Dict.get?_eq_some_iff.mp row, found⟩, rfl⟩

theorem StateTable.Holds.select (h : t.Holds db) (away : like start keyHeartbeat = false) :
    (k, value) ∈ t.select start ↔
      ∃ key, db.Has key value ∧ like start key = true ∧ cut start key = k := by
  rw [mem_select]
  refine exists_congr fun key => and_congr_left fun found => h key value ?_
  rintro rfl
  rw [away] at found
  cases found.1

theorem StateTable.Holds.purge (h : t.Holds db) :
    (t.purgeTerminalKeys db.jobs).Holds db.purgeTerminalKeys := by
  intro key value away
  rw [StateTable.purgeTerminalKeys, Dict.get?_filter, Option.filter_eq_some_iff, h key value away]
  constructor
  · rintro ⟨has, kept⟩
    cases has with
    | record hj =>
      refine .record ?_
      simp only [Database.purgeTerminalKeys, Dict.get?_filter, hj]
      simpa [StateValue.jobId?] using kept
    | review hr => exact .review hr
    | sourceEvent hr => exact .sourceEvent hr
    | hub hs => exact .hub hs
  · intro has
    cases has with
    | record hj =>
      simp only [Database.purgeTerminalKeys, Dict.get?_filter] at hj
      obtain ⟨hj, live⟩ := Option.filter_eq_some_iff.mp hj
      exact ⟨.record hj, by simpa [StateValue.jobId?] using live⟩
    | review hr => exact ⟨.review hr, by rw [like_apart (by decide)]; rfl⟩
    | sourceEvent hr => exact ⟨.sourceEvent hr, by rw [like_apart (by decide)]; rfl⟩
    | hub hs => exact ⟨.hub hs, by rfl⟩

/-- A restart on any table that holds the database loads what the world after it has. -/
theorem StateTable.Holds.loadedAs {w : World} (hd : w.db = some db) (h : t.Holds db) :
    (t.purgeTerminalKeys db.jobs).LoadedAs w.restart := by
  have purged := h.purge
  have reviews : w.restart.reviewRecords = db.reviewRecords := by simp [World.restart, hd]
  have sources : w.restart.sourceEventRecords = db.sourceEventRecords := by
    simp [World.restart, hd]
  constructor
  case records =>
    intro k value
    rw [purged.select (by decide)]
    constructor
    · rintro ⟨key, has, found, rfl⟩
      cases has with
      | record hj => exact ⟨_, by simpa [World.restart, hd] using hj, rfl⟩
      | review | sourceEvent => rw [like_apart (by decide)] at found; cases found
      | hub => exact absurd found (by decide)
    · rintro ⟨j, hj, rfl⟩
      exact ⟨_, .record (by simpa [World.restart, hd] using hj), like_append _ _, cut_append _ _⟩
  case reviews =>
    intro k value
    rw [purged.select (by decide)]
    constructor
    · rintro ⟨key, has, found, rfl⟩
      cases has with
      | review hr => exact ⟨_, by rw [reviews, cut_append]; exact hr, rfl⟩
      | record | sourceEvent => rw [like_apart (by decide)] at found; cases found
      | hub => exact absurd found (by decide)
    · rintro ⟨r, hr, rfl⟩
      exact ⟨_, .review (reviews ▸ hr), like_append _ _, cut_append _ _⟩
  case sources =>
    intro k value
    rw [purged.select (by decide)]
    constructor
    · rintro ⟨key, has, found, rfl⟩
      cases has with
      | sourceEvent hr => exact ⟨_, by rw [sources, cut_append]; exact hr, rfl⟩
      | record | review => rw [like_apart (by decide)] at found; cases found
      | hub => exact absurd found (by decide)
    · rintro ⟨r, hr, rfl⟩
      exact ⟨_, .sourceEvent (sources ▸ hr), like_append _ _, cut_append _ _⟩

/-- The records of one dictionary as rows. -/
def rows {α : Type} (start : String) (d : Dict String α) (f : α → StateValue) :
    List (String × StateValue) :=
  d.entries.map fun e => (start ++ e.1, f e.2)

theorem mem_rows {α : Type} {d : Dict String α} {f : α → StateValue} :
    (key, value) ∈ rows start d f ↔ ∃ k a, d.get? k = some a ∧ key = start ++ k ∧ value = f a := by
  constructor
  · intro h
    obtain ⟨e, mem, eq⟩ := List.mem_map.mp h
    cases eq
    exact ⟨e.1, e.2, Dict.get?_eq_some_iff.mpr mem, rfl, rfl⟩
  · rintro ⟨k, a, found, rfl, rfl⟩
    exact List.mem_map.mpr ⟨(k, a), Dict.get?_eq_some_iff.mp found, rfl⟩

theorem rows_nodup {α : Type} (start : String) (d : Dict String α) (f : α → StateValue) :
    ((rows start d f).map Prod.fst).Nodup := by
  have keys : (rows start d f).map Prod.fst = (d.entries.map Prod.fst).map (start ++ ·) := by
    simp [rows, List.map_map, Function.comp_def]
  rw [keys]
  refine d.nodup.map fun a b same => ?_
  simpa using congrArg (cut start) same

theorem append_nodup {l rest : List (String × StateValue)} (h : (l.map Prod.fst).Nodup)
    (h' : (rest.map Prod.fst).Nodup) (away : ∀ e ∈ l, ∀ e' ∈ rest, e.1 ≠ e'.1) :
    ((l ++ rest).map Prod.fst).Nodup := by
  rw [List.map_append, List.nodup_append]
  refine ⟨h, h', fun a ha b hb => ?_⟩
  obtain ⟨e, mem, rfl⟩ := List.mem_map.mp ha
  obtain ⟨e', mem', rfl⟩ := List.mem_map.mp hb
  exact away e mem e' mem'

theorem rows_apart {α β : Type} {p q : String} (differ : apart p q = true) {d : Dict String α}
    {d' : Dict String β} {f : α → StateValue} {g : β → StateValue} :
    ∀ e ∈ rows p d f, ∀ e' ∈ rows q d' g, e.1 ≠ e'.1 := by
  intro e mem e' mem'
  obtain ⟨k, a, -, eq, -⟩ := mem_rows.mp mem
  obtain ⟨k', b, -, eq', -⟩ := mem_rows.mp mem'
  rw [eq, eq']
  exact append_ne differ

def hubRow (hub : Option HubState) : Dict String HubState :=
  hub.elim ∅ fun s => (∅ : Dict String HubState).set "" s

/-- A table with the rows of the stores: each record under its prefix. -/
def Database.table (db : Database) : StateTable where
  entries := rows keyPrefix db.records .record ++ (rows reviewKeyPrefix db.reviewRecords .review ++
    (rows sourceEventPrefix db.sourceEventRecords .sourceEvent ++
      rows keyState (hubRow db.hub) .hub))
  nodup := by
    refine append_nodup (rows_nodup ..) (append_nodup (rows_nodup ..) (append_nodup
      (rows_nodup ..) (rows_nodup ..) (rows_apart (by decide))) ?_) ?_
    · intro e mem e' mem'
      rcases List.mem_append.mp mem' with mem' | mem'
      all_goals exact rows_apart (by decide) e mem e' mem'
    · intro e mem e' mem'
      rcases List.mem_append.mp mem' with mem' | mem'
      · exact rows_apart (by decide) e mem e' mem'
      rcases List.mem_append.mp mem' with mem' | mem'
      all_goals exact rows_apart (by decide) e mem e' mem'

theorem hubRow_some {hub : Option HubState} {k : String} {s : HubState} :
    (hubRow hub).get? k = some s ↔ hub = some s ∧ k = "" := by
  cases hub with
  | none => simp [hubRow]
  | some s' =>
    simp only [hubRow, Option.elim_some, Dict.get?_set, Dict.get?_empty, Option.some.injEq]
    by_cases here : k = "" <;> simp [here]

theorem Database.table_holds (db : Database) : db.table.Holds db := by
  intro key value away
  rw [Dict.get?_eq_some_iff]
  constructor
  · intro mem
    rcases List.mem_append.mp mem with mem | mem
    · obtain ⟨k, j, found, rfl, rfl⟩ := mem_rows.mp mem
      exact .record found
    rcases List.mem_append.mp mem with mem | mem
    · obtain ⟨k, r, found, rfl, rfl⟩ := mem_rows.mp mem
      exact .review found
    rcases List.mem_append.mp mem with mem | mem
    · obtain ⟨k, r, found, rfl, rfl⟩ := mem_rows.mp mem
      exact .sourceEvent found
    · obtain ⟨k, s, found, rfl, rfl⟩ := mem_rows.mp mem
      obtain ⟨stored, rfl⟩ := hubRow_some.mp found
      exact .hub stored
  · intro has
    cases has with
    | record h => exact List.mem_append_left _ (mem_rows.mpr ⟨_, _, h, rfl, rfl⟩)
    | review h =>
      exact List.mem_append_right _ (List.mem_append_left _ (mem_rows.mpr ⟨_, _, h, rfl, rfl⟩))
    | sourceEvent h =>
      exact List.mem_append_right _ (List.mem_append_right _
        (List.mem_append_left _ (mem_rows.mpr ⟨_, _, h, rfl, rfl⟩)))
    | hub h =>
      exact List.mem_append_right _ (List.mem_append_right _ (List.mem_append_right _
        (mem_rows.mpr ⟨"", _, hubRow_some.mpr ⟨h, rfl⟩, rfl, rfl⟩)))

end Table

section Writes

inductive RowKind
  | record | review | sourceEvent | hub
  deriving DecidableEq, Repr

def RowKind.start : RowKind → String
  | record => keyPrefix
  | review => reviewKeyPrefix
  | sourceEvent => sourceEventPrefix
  | hub => keyState

/-- The value that the stores have under a key of the kind. -/
def Database.find (db : Database) : RowKind → String → Option StateValue
  | .record, k => (db.records.get? k).map .record
  | .review, k => (db.reviewRecords.get? k).map .review
  | .sourceEvent, k => (db.sourceEventRecords.get? k).map .sourceEvent
  | .hub, k => if k = "" then db.hub.map .hub else none

variable {t : StateTable} {db db' : Database} {kind kind' : RowKind} {k k' key : String}
  {value : StateValue}

theorem has_iff : db.Has key value ↔
    ∃ (kind : RowKind) (k : String), key = kind.start ++ k ∧ db.find kind k = some value := by
  constructor
  · intro has
    cases has with
    | record h => exact ⟨.record, _, rfl, by simp [Database.find, h]⟩
    | review h => exact ⟨.review, _, rfl, by simp [Database.find, h]⟩
    | sourceEvent h => exact ⟨.sourceEvent, _, rfl, by simp [Database.find, h]⟩
    | hub h => exact ⟨.hub, "", rfl, by simp [Database.find, h]⟩
  · rintro ⟨kind, k, rfl, found⟩
    cases kind with
    | record =>
      obtain ⟨j, h, rfl⟩ := Option.map_eq_some_iff.mp found
      exact .record h
    | review =>
      obtain ⟨r, h, rfl⟩ := Option.map_eq_some_iff.mp found
      exact .review h
    | sourceEvent =>
      obtain ⟨r, h, rfl⟩ := Option.map_eq_some_iff.mp found
      exact .sourceEvent h
    | hub =>
      by_cases empty : k = ""
      · subst empty
        rw [Database.find, if_pos rfl] at found
        obtain ⟨s, h, rfl⟩ := Option.map_eq_some_iff.mp found
        exact .hub h
      · rw [Database.find, if_neg empty] at found
        cases found

theorem start_apart (h : kind ≠ kind') : apart kind.start kind'.start = true := by
  cases kind <;> cases kind' <;> first | exact absurd rfl h | decide

theorem start_injective (same : kind.start ++ k = kind'.start ++ k') : kind = kind' ∧ k = k' := by
  by_cases h : kind = kind'
  · subst h
    exact ⟨rfl, by simpa using congrArg (cut kind.start) same⟩
  · exact absurd same (append_ne (start_apart h))

/-- A write of one row keeps the table in step with a database that changes there only. -/
theorem StateTable.Holds.set (h : t.Holds db) (kind : RowKind) (k : String) (value : StateValue)
    (here : db'.find kind k = some value)
    (frame : ∀ kind' k', ¬ (kind' = kind ∧ k' = k) → db'.find kind' k' = db.find kind' k') :
    StateTable.Holds (Dict.set t (kind.start ++ k) value) db' := by
  intro key other away
  rw [Dict.get?_set, has_iff]
  by_cases same : key = kind.start ++ k
  · rw [if_pos same]
    constructor
    · intro eq
      exact ⟨kind, k, same, here.trans eq⟩
    · rintro ⟨kind', k', rfl, found⟩
      obtain ⟨rfl, rfl⟩ := start_injective same
      exact here.symm.trans found
  · rw [if_neg same, h key other away, has_iff]
    refine exists_congr fun kind' => exists_congr fun k' => and_congr_right fun eq => ?_
    rw [frame kind' k']
    rintro ⟨rfl, rfl⟩
    exact same eq

/-- The table of a world, where it has a database. -/
def World.Tabled (w : World) (t : StateTable) : Prop := ∀ db, w.db = some db → t.Holds db

variable {w : World}

theorem tabled_storeKey (h : w.Tabled t) (k : String) (j : JobId) :
    (w.storeKey k j).Tabled (t.set (keyPrefix ++ k) (.record j)) := by
  intro db' stored
  obtain ⟨db, hd, rfl⟩ := Option.map_eq_some_iff.mp stored
  refine (h db hd).set .record k (.record j) (by simp [Database.find]) fun kind' k' other => ?_
  cases kind' with
  | record => simp [Database.find, Dict.get?_set_ne _ fun eq => other ⟨rfl, eq⟩]
  | review | sourceEvent | hub => rfl

theorem tabled_storeReview (h : w.Tabled t) (k : String) (r : ReviewIdempotencyRecord) :
    (w.storeReview k r).Tabled (t.set (reviewKeyPrefix ++ k) (.review r)) := by
  intro db' stored
  obtain ⟨db, hd, rfl⟩ := Option.map_eq_some_iff.mp stored
  refine (h db hd).set .review k (.review r) (by simp [Database.find]) fun kind' k' other => ?_
  cases kind' with
  | review => simp [Database.find, Dict.get?_set_ne _ fun eq => other ⟨rfl, eq⟩]
  | record | sourceEvent | hub => rfl

theorem tabled_reserveSource (h : w.Tabled t) (k : String) (r : SourceEventRecord) :
    (w.reserveSource k r).Tabled (t.set (sourceEventPrefix ++ k) (.sourceEvent r)) := by
  intro db' stored
  obtain ⟨db, hd, rfl⟩ := Option.map_eq_some_iff.mp stored
  refine (h db hd).set .sourceEvent k (.sourceEvent r) (by simp [Database.find])
    fun kind' k' other => ?_
  cases kind' with
  | sourceEvent => simp [Database.find, Dict.get?_set_ne _ fun eq => other ⟨rfl, eq⟩]
  | record | review | hub => rfl

theorem tabled_setHub (h : w.Tabled t) (s : HubState) :
    (w.setHub s).Tabled (t.set keyState (.hub s)) := by
  intro db' stored
  obtain ⟨db, hd, rfl⟩ := Option.map_eq_some_iff.mp stored
  refine (h db hd).set .hub "" (.hub s) (by simp [Database.find]) fun kind' k' other => ?_
  cases kind' with
  | hub =>
    have named : k' ≠ "" := fun eq => other ⟨rfl, eq⟩
    simp [Database.find, named]
  | record | review | sourceEvent => rfl

/-- The DELETE of _db_delete_source_event. -/
def StateTable.deleteSourceEvent (t : StateTable) (k : String) (j : JobId) : StateTable :=
  t.filter fun key value => !(key = sourceEventPrefix ++ k && value.jobId? = some j)

theorem tabled_releaseSource (h : w.Tabled t) (k : String) (j : JobId) :
    (w.releaseSource k j).Tabled (t.deleteSourceEvent k j) := by
  intro db' stored
  obtain ⟨db, hd, rfl⟩ := Option.map_eq_some_iff.mp stored
  intro key value away
  rw [StateTable.deleteSourceEvent, Dict.get?_filter, Option.filter_eq_some_iff,
    h db hd key value away]
  constructor
  · rintro ⟨has, stays⟩
    cases has with
    | sourceEvent hr =>
      refine .sourceEvent ?_
      rw [Dict.get?_filter, hr]
      simpa [StateValue.jobId?] using stays
    | record hj => exact .record hj
    | review hr => exact .review hr
    | hub hs => exact .hub hs
  · intro has
    cases has with
    | sourceEvent hr =>
      rw [Dict.get?_filter] at hr
      obtain ⟨hr, stays⟩ := Option.filter_eq_some_iff.mp hr
      exact ⟨.sourceEvent hr, by simpa [StateValue.jobId?] using stays⟩
    | record hj =>
      have differ : apart keyPrefix sourceEventPrefix = true := by decide
      exact ⟨.record hj, by simp [append_ne differ]⟩
    | review hr => exact ⟨.review hr, by simp [StateValue.jobId?]⟩
    | hub hs => exact ⟨.hub hs, by simp [StateValue.jobId?]⟩

theorem tabled_persistJob (h : w.Tabled t) (j : JobId) : (w.persistJob j).Tabled t := by
  intro db' stored
  simp only [World.persistJob_db, World.persistedDb] at stored
  split at stored
  · rename_i db job hd found
    cases stored
    intro key value away
    rw [h db hd key value away, has_iff, has_iff]
    rfl
  · exact h db' stored

theorem tabled_restart (h : w.Tabled t) {db : Database} (hd : w.db = some db) :
    w.restart.Tabled (t.purgeTerminalKeys db.jobs) := by
  intro db' stored
  obtain ⟨db₁, hd₁, rfl⟩ := Option.map_eq_some_iff.mp stored
  cases hd.symm.trans hd₁
  exact (h db hd).purge

end Writes

end Drnt.Orchestrator
