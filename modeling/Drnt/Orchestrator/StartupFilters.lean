import Drnt.Orchestrator.Footprint
import Drnt.Orchestrator.StateTable

/-! The two filters of a restart: which jobs are loaded, and which submit keys are kept. -/
namespace Drnt.Orchestrator

open Lib Lib.Coop Trial

section Agreement

/-- After a restart every key that is kept belongs to a job that was loaded, every loaded job
has its key, and the stored outcomes of reviews and source events are as they were. Whatever
table holds the rows, the three selections by prefix load this from what the purge leaves. -/
structure FiltersAgree (w : World) : Prop where
  loaded : ∀ {k j}, w.restart.records.get? k = some j → ∃ job, w.restart.job? j = some job
  replayed : ∀ s : Submission, s.stranded w.restart = false
  kept : ∀ {j job k}, w.restart.job? j = some job → job.idempotencyKey = some k →
    w.restart.records.get? k = some j
  reviews : ∀ db, w.db = some db → w.restart.reviewRecords = db.reviewRecords
  sources : ∀ db, w.db = some db → w.restart.sourceEventRecords = db.sourceEventRecords
  untouched : ∀ db, w.db = some db → ∃ db', w.restart.db = some db' ∧
    db'.reviewRecords = db.reviewRecords ∧ db'.sourceEventRecords = db.sourceEventRecords
  tabled : ∀ db, w.db = some db → db.table.Holds db
  selected : ∀ db, w.db = some db → ∀ t : StateTable, t.Holds db →
    (t.purgeTerminalKeys db.jobs).LoadedAs w.restart

variable {w : World} {j : JobId} {job : Job} {k : String}

theorem restart_job (h : w.restart.job? j = some job) :
    ∃ db, w.db = some db ∧ db.jobs.get? j = some job ∧ resident job = true := by
  simp only [World.job?, World.restart] at h
  cases hd : w.db with
  | none => simp [hd] at h
  | some db =>
    simp only [hd, Option.map_some, Option.getD_some, loadJobs, Dict.get?_filter] at h
    obtain ⟨row, found⟩ := Option.filter_eq_some_iff.mp h
    exact ⟨db, rfl, row, found⟩

theorem restart_record (h : w.restart.records.get? k = some j) :
    ∃ db row, w.db = some db ∧ db.records.get? k = some j ∧ db.jobs.get? j = some row ∧
      row.status ∉ [JobStatus.delivered, .failed] := by
  simp only [World.restart] at h
  cases hd : w.db with
  | none => simp [hd] at h
  | some db =>
    simp only [hd, Option.map_some, Option.getD_some, Database.purgeTerminalKeys,
      Dict.get?_filter] at h
    obtain ⟨found, live⟩ := Option.filter_eq_some_iff.mp h
    obtain ⟨row, hr, status⟩ := (Option.any_eq_true _ _).mp live
    exact ⟨db, row, rfl, found, hr, of_decide_eq_true status⟩

/-- No submit key is stored for a job whose row is revoked. -/
def World.unrevoked (w : World) : Bool :=
  w.db.all fun db => db.records.entries.all fun e =>
    (db.jobs.get? e.2).all (·.status ≠ .revoked)

theorem loaded_of_unrevoked (unrevoked : w.unrevoked = true)
    (h : w.restart.records.get? k = some j) : ∃ job, w.restart.job? j = some job := by
  obtain ⟨db, row, hd, found, hr, status⟩ := restart_record h
  have open_ : row.status ≠ .revoked := by
    simp only [World.unrevoked, hd, Option.all_some, List.all_eq_true] at unrevoked
    have := unrevoked (k, j) (Dict.get?_eq_some_iff.mp found)
    simpa [hr] using this
  have stays : resident row = true := by
    simp only [List.mem_cons, List.not_mem_nil, or_false, not_or] at status
    simp [resident, status, open_]
  refine ⟨row, ?_⟩
  simp only [World.job?, World.restart, hd, Option.map_some, Option.getD_some, loadJobs,
    Dict.get?_filter, hr]
  simp [stays]

end Agreement

section Owned

def Core.resident (c : Core) : Prop := c.status ∉ [JobStatus.delivered, .failed, .revoked]

/-- The store has the id of every job under its key; of the rows, only of those that a restart
would load. -/
structure Owned (v : View) : Prop where
  core : ∀ {j c k}, v.core j = some c → c.idempotencyKey = some k → v.records k = some j
  row : ∀ {j c k}, v.row j = some c → c.resident → c.idempotencyKey = some k →
    v.records k = some j

/-- The jobs that a write adds have their ids in the store under their keys. -/
def addsOwned (w w' : World) : Bool :=
  w'.jobs.entries.all fun e => (w.job? e.1).isSome ||
    e.2.idempotencyKey.all fun k => w.records.get? k = some e.1

/-- A submission stores its job only while the store has the id of the job under the key, and
no restart finds the key of a revoked job. -/
def owning {cfg : Settings} (c : Run cfg) : Label (orchestrator cfg) → Bool
  | .work i =>
    match (c.threads[i]? : Option (Thread (orchestrator cfg))) with
    | some ⟨_, .set w _⟩ => addsOwned c.state w
    | _ => true
  | .crash => c.state.unrevoked
  | .start _ | .answer _ _ _ => true

/-- The condition on a step, and what is known of every state. -/
def OwningSynced {cfg : Settings} (c : Run cfg) (l : Label (orchestrator cfg)) : Prop :=
  Meets owning c l ∧ c.state.Synced

variable {cfg : Settings} {v : View} {toks : Toks} {t : Call} {τ τ' : Tok} {a : Act} {j : JobId}
  {c : Core} {k : String}

theorem owned_of_writes (writes : Writes cfg OwningSynced t v (a.apply v))
    (new : v.core j = none) (hc : (a.apply v).core j = some c) (key : c.idempotencyKey = some k) :
    v.records k = some j := by
  obtain ⟨c₀, i, w, p, at_, ⟨met, -⟩, rfl, after⟩ := writes
  have owned : addsOwned c₀.state w = true := by
    simpa only [Meets, owning, at_] using met
  rw [← after, view_core] at hc
  obtain ⟨job, hj, rfl⟩ := Option.map_eq_some_iff.mp hc
  have := List.all_eq_true.mp owned (j, job) (Dict.get?_eq_some_iff.mp hj)
  have gone : c₀.state.job? j = none := Option.map_eq_none_iff.mp new
  have key : job.idempotencyKey = some k := key
  simpa [gone, key] using this

theorem owned_move {i : Nat} (base : Base v toks) (inv : Owned v) (at_ : toks[i]? = some (t, τ))
    (writes : Writes cfg OwningSynced t v (a.apply v)) (h : Allowed τ v a τ') :
    Owned (a.apply v) := by
  constructor
  case core =>
    intro j c k hc key
    refine h.grows.records ?_
    rcases allowed_origin h hc with ⟨c₀, hc₀, -, same, -⟩ | rfl
    · exact inv.core hc₀ (same ▸ key)
    · have new := base.1.pending (List.mem_of_getElem? at_) (allowed_add h).1
      exact owned_of_writes writes new hc key
  case row =>
    intro j c k hr open_ key
    refine h.grows.records ?_
    rcases apply_row hr with old | hc
    · exact inv.row old open_ key
    · exact inv.core hc key

theorem restart_open {w : World} (h : w.restart.view.core j = some c) :
    w.view.row j = some c ∧ c.resident := by
  refine ⟨restart_core h, ?_⟩
  obtain ⟨job, hj, rfl⟩ := Option.map_eq_some_iff.mp h
  obtain ⟨-, -, -, stays⟩ := restart_job hj
  have stays : job.status ∉ [JobStatus.delivered, .failed, .revoked] := by
    simpa only [resident, decide_eq_true_eq] using stays
  exact stays

/-- A key that the store had for a job that a restart loads is kept. -/
theorem restart_keeps {w : World} (sync : w.Synced) (hr : w.view.row j = some c)
    (open_ : c.resident) (stored : w.view.records k = some j) :
    w.restart.view.records k = some j := by
  rw [view_row] at hr
  obtain ⟨job, found, rfl⟩ := Option.map_eq_some_iff.mp hr
  obtain ⟨db, hd, row⟩ := Option.bind_eq_some_iff.mp found
  have same : db.records = w.records := sync db hd
  have stored : w.records.get? k = some j := stored
  have open_ : job.status ∉ [JobStatus.delivered, .failed, .revoked] := open_
  simp only [List.mem_cons, List.not_mem_nil, or_false, not_or] at open_
  simp [World.restart, hd, Database.purgeTerminalKeys, Dict.get?_filter, same, stored, row, open_]

theorem owned (cfg : Settings) : Invariant cfg OwningSynced Base fun v _ => Owned v where
  start _ _ inv _ _ _ _ := inv
  move base inv at_ _ writes h := owned_move base inv at_ writes h
  finish _ inv _ _ _ := inv
  crash {c toks} _ _ inv met := by
    constructor
    case core =>
      intro j core k hc key
      obtain ⟨hr, open_⟩ := restart_open hc
      exact restart_keeps met.2 hr open_ (inv.row hr open_ key)
    case row =>
      intro j core k hr open_ key
      rw [restart_row] at hr
      exact restart_keeps met.2 hr open_ (inv.row hr open_ key)

theorem owned_initial (persistent : Bool) : Owned (World.initial persistent).view where
  core hc := by cases hc
  row hr := absurd hr initial_row

end Owned

section Filters

variable {cfg : Settings} {c : Run cfg}

/-- Every restart of a run that meets the condition finds the two filters in agreement. -/
theorem filters_agree {persistent : Bool}
    (run : Reach (orchestrator cfg) (Meets owning) (.boot _ (World.initial persistent)) c)
    (met : owning c .crash = true) : FiltersAgree c.state := by
  have sync : c.state.Synced := synced (run.mono fun _ _ _ => trivial)
  have knowing := run.knowing (Q := fun c : Run cfg => c.state.Synced) fun run =>
    synced (run.mono fun _ _ _ => trivial)
  obtain ⟨toks, -, -, inv⟩ := Invariant.reach (base cfg) (owned cfg) (Plan.tracks_boot _)
    (base_initial persistent) (owned_initial persistent) knowing
  have loaded {k : String} {j : JobId} (h : c.state.restart.records.get? k = some j) :
      ∃ job, c.state.restart.job? j = some job := loaded_of_unrevoked met h
  constructor
  case loaded => exact loaded
  case replayed =>
    intro s
    cases hs : s.plainKey?.bind c.state.restart.records.get? with
    | none => simp [Submission.stranded, hs]
    | some j =>
      obtain ⟨k, -, hk⟩ := Option.bind_eq_some_iff.mp hs
      obtain ⟨job, hj⟩ := loaded hk
      simp [Submission.stranded, hs, hj]
  case kept =>
    intro j job k hj key
    have hc : c.state.restart.view.core j = some job.core := by simp [hj]
    obtain ⟨hr, open_⟩ := restart_open hc
    exact restart_keeps sync hr open_ (inv.row hr open_ key)
  case reviews => exact fun db hd => by simp [World.restart, hd]
  case sources => exact fun db hd => by simp [World.restart, hd]
  case untouched =>
    intro db hd
    exact ⟨db.purgeTerminalKeys, by simp [World.restart, hd], rfl, rfl⟩
  case tabled => exact fun db _ => db.table_holds
  case selected => exact fun db hd t held => held.loadedAs hd

theorem filters_agree_witness : ∃ c : Run plain,
    (c.state.restart.job? (uuid 1)).isSome = true ∧ FiltersAgree c.state := by
  obtain ⟨c, run, seen⟩ := reached (guards_meets owning) (fresh plain true)
    [.start .startup, .finish 0, .start (.submit (request (some "k"))), .finish 1]
    (fun c => (c.state.restart.job? (uuid 1)).isSome && owning c .crash) (by decide +kernel)
  obtain ⟨loaded, met⟩ := Bool.and_eq_true_iff.mp seen
  exact ⟨c, loaded, filters_agree run met⟩

/-- A delivered job is cancelled and so revoked: the purge keeps its key, and the job is not
loaded. -/
theorem revoked_kept : ∃ c : Run plain,
    Reach (orchestrator plain) (Anyhow plain) (.boot _ (World.initial true)) c ∧
      ¬ FiltersAgree c.state := by
  obtain ⟨c, run, seen⟩ := reached (guards_anyhow plain) (fresh plain true)
    [.start .startup, .finish 0, .start (.submit (request (some "k"))), .finish 1,
      .start (.worker (uuid 1)), .finish 2,
      .start (.override (uuid 1) ⟨"cancel", "", "", "phone", none⟩), .finish 3]
    (fun c => c.state.restart.records.get? "k" = some (uuid 1) &&
      (c.state.restart.job? (uuid 1)).isNone) (by decide +kernel)
  obtain ⟨kept, gone⟩ := Bool.and_eq_true_iff.mp seen
  refine ⟨c, run, fun agree => ?_⟩
  obtain ⟨job, hj⟩ := agree.loaded (of_decide_eq_true kept)
  simp [hj] at gone

end Filters

end Drnt.Orchestrator
