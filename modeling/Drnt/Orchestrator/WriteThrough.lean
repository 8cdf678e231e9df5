import Drnt.Orchestrator.Accounts
import Drnt.Orchestrator.StartupFilters

/-! Memory and the jobs table agree whenever nothing is under way. -/
namespace Drnt.Orchestrator

open Lib Lib.Coop Trial

section Keys

/-- The key belongs to the job, in memory or in its row. -/
def View.Keyed (v : View) (j : JobId) (k : String) : Prop :=
  ∃ c, (v.core j = some c ∨ v.row j = some c) ∧ c.idempotencyKey = some k

/-- No two jobs have one key. -/
def Distinct (v : View) : Prop := ∀ {i j k}, v.Keyed i k → v.Keyed j k → i = j

/-- No job in memory or in a row has the key. -/
def World.unused (w : World) (k : String) : Bool :=
  w.jobs.entries.all (fun e => e.2.idempotencyKey ≠ some k) &&
    w.rows.all fun rows => rows.entries.all fun e => e.2.idempotencyKey ≠ some k

/-- The jobs that a write adds have keys of their own. -/
def addsUnused (w w' : World) : Bool :=
  w'.jobs.entries.all fun e => (w.job? e.1).isSome || e.2.idempotencyKey.all w.unused

/-- A submission stores its job only under a key that no other job has, and an override raises
only when it has written its job out. -/
def settling {cfg : Settings} (c : Run cfg) : Label (orchestrator cfg) → Bool
  | .work i =>
    match (c.threads[i]? : Option (Thread (orchestrator cfg))) with
    | some ⟨_, .set w _⟩ => addsUnused c.state w
    | some ⟨.override j _, .raise _⟩ => c.state.job? j = c.state.row? j
    | _ => true
  | .start _ | .answer _ _ _ | .crash => true

variable {cfg : Settings} {v : View} {toks : Toks} {t : Call} {τ τ' : Tok} {a : Act} {j : JobId}
  {c : Core} {k : String}

theorem not_keyed_of_unused {w : World} (unused : w.unused k = true) : ¬ w.view.Keyed j k := by
  rintro ⟨c, here | row, key⟩
  · rw [view_core] at here
    obtain ⟨job, hj, rfl⟩ := Option.map_eq_some_iff.mp here
    have := List.all_eq_true.mp (Bool.and_eq_true_iff.mp unused).1 (j, job)
      (Dict.get?_eq_some_iff.mp hj)
    exact of_decide_eq_true this key
  · rw [view_row, row_eq] at row
    obtain ⟨job, hj, rfl⟩ := Option.map_eq_some_iff.mp row
    obtain ⟨rows, hr, found⟩ := Option.bind_eq_some_iff.mp hj
    have open_ := (Bool.and_eq_true_iff.mp unused).2
    rw [hr] at open_
    have := List.all_eq_true.mp open_ (j, job) (Dict.get?_eq_some_iff.mp found)
    exact of_decide_eq_true this key

/-- A key that a job has after a write it had before, or no job had it. -/
theorem keyed_origin (base : Base v toks) (mem : (t, τ) ∈ toks)
    (writes : Writes cfg (Meets settling) t v (a.apply v)) (h : Allowed τ v a τ')
    (keyed : (a.apply v).Keyed j k) :
    v.Keyed j k ∨ (∀ i, ¬ v.Keyed i k) ∧ ∃ c, a = .add j c := by
  obtain ⟨c, here | row, key⟩ := keyed
  · rcases allowed_origin h here with ⟨c₀, hc₀, -, same, -⟩ | rfl
    · exact .inl ⟨c₀, .inl hc₀, same ▸ key⟩
    · refine .inr ⟨fun i => ?_, c, rfl⟩
      obtain ⟨c₀, n, w, p, at_, met, rfl, after⟩ := writes
      have unused : addsUnused c₀.state w = true := by
        simpa only [Meets, settling, at_] using met
      rw [← after, view_core] at here
      obtain ⟨job, hj, rfl⟩ := Option.map_eq_some_iff.mp here
      have new : c₀.state.job? j = none :=
        Option.map_eq_none_iff.mp (base.1.pending mem (allowed_add h).1)
      have := List.all_eq_true.mp unused (j, job) (Dict.get?_eq_some_iff.mp hj)
      have key : job.idempotencyKey = some k := key
      rw [new, key] at this
      exact not_keyed_of_unused (by simpa using this)
  · rcases apply_row row with old | old
    · exact .inl ⟨c, .inr old, key⟩
    · exact .inl ⟨c, .inl old, key⟩

theorem distinct_move {i : Nat} (base : Base v toks) (inv : Distinct v)
    (at_ : toks[i]? = some (t, τ)) (writes : Writes cfg (Meets settling) t v (a.apply v))
    (h : Allowed τ v a τ') : Distinct (a.apply v) := by
  intro i j k hi hj
  have mem := List.mem_of_getElem? at_
  rcases keyed_origin base mem writes h hi with hi | ⟨free, c, rfl⟩
  · rcases keyed_origin base mem writes h hj with hj | ⟨free, -⟩
    · exact inv hi hj
    · exact absurd hi (free i)
  · rcases keyed_origin base mem writes h hj with hj | ⟨-, c', eq⟩
    · exact absurd hj (free j)
    · cases eq
      rfl

theorem distinct (cfg : Settings) :
    Invariant cfg (Meets settling) Base fun v _ => Distinct v where
  start _ _ inv _ _ _ _ := inv
  move base inv at_ _ writes h := distinct_move base inv at_ writes h
  finish _ inv _ _ _ := inv
  crash {c toks} _ _ inv _ := by
    have rows {j k} : c.state.restart.view.Keyed j k → c.state.view.Keyed j k := by
      rintro ⟨core, here | row, key⟩
      · exact ⟨core, .inr (restart_core here), key⟩
      · exact ⟨core, .inr (by rwa [restart_row] at row), key⟩
    intro i j k hi hj
    exact inv (rows hi) (rows hj)

theorem distinct_initial (persistent : Bool) : Distinct (World.initial persistent).view := by
  rintro i j k ⟨c, here | row, -⟩ -
  · cases here
  · exact absurd row initial_row

end Keys

section Rows

variable {cfg : Settings} {w w' : World} {j : JobId}

/-- No row is lost, and a row changes only to what memory holds of its job. -/
def RowsKept (w w' : World) : Prop :=
  ∀ {j row}, w.row? j = some row →
    w'.row? j = some row ∨ (w.job? j).isSome ∧ w'.row? j = w.job? j

theorem keyed_job {job : Job} {k : String} (h : w.job? j = some job)
    (key : job.idempotencyKey = some k) : w.view.Keyed j k :=
  ⟨job.core, .inl (by simp [h]), key⟩

theorem keyed_row {row : Job} {k : String} (h : w.row? j = some row)
    (key : row.idempotencyKey = some k) : w.view.Keyed j k :=
  ⟨row.core, .inr (by rw [view_row, h]; rfl), key⟩

/-- Writing out a job while no other job has its key. -/
theorem row?_persistJob (attached : w.rows.isSome) (own : Distinct w.view) (i : JobId) :
    (w.persistJob j).row? i = if i = j ∧ (w.job? j).isSome then w.job? j else w.row? i := by
  obtain ⟨rows, hr⟩ := Option.isSome_iff_exists.mp attached
  rw [row_eq, rows_persistJob, hr]
  cases hj : w.job? j with
  | none => simp [row_eq, hr]
  | some job =>
    simp only [Option.bind_some, Dict.get?_set, Dict.get?_filter, Option.isSome_some, and_true]
    by_cases same : i = j
    · rw [if_pos same, if_pos same]
    · rw [if_neg same, if_neg same, row_eq, hr, Option.bind_some]
      cases found : rows.get? i with
      | none => rfl
      | some row =>
        have hrow : w.row? i = some row := by rw [row_eq, hr]; exact found
        have other : ¬ (row.idempotencyKey = job.idempotencyKey ∧ job.idempotencyKey ≠ none) := by
          rintro ⟨eq, keyed⟩
          obtain ⟨k, key⟩ := Option.ne_none_iff_exists'.mp keyed
          exact same (own (keyed_row hrow (eq.trans key)) (keyed_job hj key))
        simp [Option.filter, same, other]

theorem attached_persistJob (attached : w.rows.isSome) : (w.persistJob j).rows.isSome := by
  obtain ⟨rows, hr⟩ := Option.isSome_iff_exists.mp attached
  rw [rows_persistJob, hr]
  cases w.job? j <;> rfl

/-- Every job in memory is as its row, or some call is behind with it: one that is under way,
or a startup. Every row of a job that has not ended is in memory. -/
structure Written (cfg : Settings) (w : World) (toks : (accounts cfg).Toks) : Prop where
  attached : w.rows.isSome
  written : ∀ {j job}, w.job? j = some job → w.row? j = some job ∨
    ∃ tok ∈ toks, (tok.2.ended = false ∨ tok.1 = .startup) ∧ j ∈ tok.2.behind
  loaded : ∀ {j row}, w.row? j = some row → resident row = true → (w.job? j).isSome

/-- The condition on a step, and what is known of every state. -/
def SettlingDistinct {cfg : Settings} (c : Run cfg) (l : Label (orchestrator cfg)) : Prop :=
  Meets settling c l ∧ Distinct c.state.view

theorem posts_rows {τ τ' : Account} (h : Posts τ w τ' w') (attached : w.rows.isSome)
    (own : Distinct w.view) : RowsKept w w' := by
  intro j row hr
  cases h with
  | aside jobs rows => exact .inl (by rwa [row_eq, rows, ← row_eq])
  | add i job => exact .inl hr
  | update i f => exact .inl hr
  | persist i =>
    rw [row?_persistJob attached own]
    by_cases here : j = i ∧ (w.job? i).isSome
    · rw [if_pos here]
      obtain ⟨rfl, some⟩ := here
      exact .inr ⟨some, rfl⟩
    · rw [if_neg here]
      exact .inl hr

variable {toks : (accounts cfg).Toks} {i : Nat} {t : Call} {τ τ' : Account}

/-- What some call is behind with it stays behind with, if the call that moves keeps it. -/
theorem behind_set (at_ : toks[i]? = some (t, τ)) (running : τ'.ended = false)
    (kept : j ∈ τ.behind → j ∈ τ'.behind)
    (h : ∃ tok ∈ toks, (tok.2.ended = false ∨ tok.1 = .startup) ∧ j ∈ tok.2.behind) :
    ∃ tok ∈ toks.set i (t, τ'),
      (tok.2.ended = false ∨ tok.1 = .startup) ∧ j ∈ tok.2.behind := by
  obtain ⟨tok, mem, open_, owes⟩ := h
  obtain ⟨k, hk⟩ := List.getElem?_of_mem mem
  by_cases same : i = k
  · subst same
    cases at_.symm.trans hk
    have bound := (List.getElem?_eq_some_iff.mp hk).1
    exact ⟨(t, τ'), List.mem_set bound _, .inl running, kept owes⟩
  · refine ⟨tok, List.mem_of_getElem? (i := k) ?_, open_, owes⟩
    rwa [List.getElem?_set_ne same]

/-- A call that changes a job is behind with it. -/
theorem behind_owe (at_ : toks[i]? = some (t, τ)) (running : τ.ended = false) :
    ∃ tok ∈ toks.set i (t, τ.owe j),
      (tok.2.ended = false ∨ tok.1 = .startup) ∧ j ∈ tok.2.behind := by
  have bound := (List.getElem?_eq_some_iff.mp at_).1
  exact ⟨(t, τ.owe j), List.mem_set bound _, .inl running, List.mem_cons_self ..⟩

theorem written_move (inv : Written cfg w toks) (own : Distinct w.view)
    (at_ : toks[i]? = some (t, τ)) (running : τ.ended = false) (h : Posts τ w τ' w') :
    Written cfg w' (toks.set i (t, τ')) := by
  cases h with
  | aside jobs rows =>
    have row (j : JobId) : w'.row? j = w.row? j := by rw [row_eq, rows, ← row_eq]
    constructor
    case attached => rw [rows]; exact inv.attached
    case written =>
      intro j job hj
      rw [jobs] at hj
      rw [row]
      exact (inv.written hj).imp id (behind_set at_ running id)
    case loaded =>
      intro j job hr open_
      rw [row] at hr
      rw [jobs]
      exact inv.loaded hr open_
  | add n new =>
    constructor
    case attached => exact inv.attached
    case written =>
      intro j job hj
      by_cases same : j = n
      · subst same
        exact .inr (behind_owe at_ running)
      · simp only [World.job?, World.addJob, Dict.get?_set, if_neg same] at hj
        exact (inv.written hj).imp id (behind_set at_ running (List.mem_cons_of_mem n))
    case loaded => exact fun hr open_ => (Posts.add (τ := τ) n new).grows _ (inv.loaded hr open_)
  | update n f =>
    constructor
    case attached => exact inv.attached
    case written =>
      intro j job hj
      by_cases same : j = n
      · subst same
        exact .inr (behind_owe at_ running)
      · simp only [World.job?, World.updateJob, Dict.get?_modify, if_neg same] at hj
        exact (inv.written hj).imp id (behind_set at_ running (List.mem_cons_of_mem n))
    case loaded => exact fun hr open_ => (Posts.update (τ := τ) n f).grows _ (inv.loaded hr open_)
  | persist n =>
    constructor
    case attached => exact attached_persistJob inv.attached
    case written =>
      intro j job hj
      rw [row?_persistJob inv.attached own]
      by_cases here : j = n
      · subst here
        have hj : w.job? j = some job := hj
        rw [if_pos ⟨rfl, by simp [hj]⟩]
        exact .inl hj
      · rw [if_neg fun h => here h.1]
        refine (inv.written hj).imp id (behind_set at_ running fun owes => ?_)
        exact List.mem_filter.mpr ⟨owes, decide_eq_true here⟩
    case loaded =>
      intro j row hr open_
      rw [row?_persistJob inv.attached own] at hr
      by_cases here : j = n ∧ (w.job? n).isSome
      · exact here.1 ▸ here.2
      · rw [if_neg here] at hr
        exact inv.loaded hr open_

theorem written_restart (attached : w.rows.isSome) :
    Written cfg w.restart [] := by
  obtain ⟨rows, hr⟩ := Option.isSome_iff_exists.mp attached
  obtain ⟨db, hd, rfl⟩ := Option.map_eq_some_iff.mp hr
  have row (j : JobId) : w.restart.row? j = db.jobs.get? j := by
    simp [World.row?, World.restart, hd, Database.purgeTerminalKeys]
  have job (j : JobId) : w.restart.job? j = (db.jobs.get? j).filter resident := by
    simp [World.job?, World.restart, hd, loadJobs, Dict.get?_filter]
  constructor
  case attached => simp [World.rows, World.restart, hd]
  case written =>
    intro j record hj
    rw [job] at hj
    exact .inl ((row j).trans (Option.filter_eq_some_iff.mp hj).1)
  case loaded =>
    intro j record hr open_
    rw [row] at hr
    simp [job, hr, Option.filter, open_]

theorem written (cfg : Settings) :
    (accounts cfg).Preserves SettlingDistinct (Written cfg) where
  start {c toks t} _ _ inv _ _ _ _ := by
    refine ⟨inv.attached, fun hj => (inv.written hj).imp id ?_, inv.loaded⟩
    rintro ⟨tok, mem, owes⟩
    exact ⟨tok, List.mem_append_left _ mem, owes⟩
  move _ inv at_ met tok _ hm := written_move inv met.2 tok hm.1 hm.2
  finish {c toks i t p τ r} _ inv at_ res met tok settled := by
    refine ⟨inv.attached, fun {j job} hj => ?_, inv.loaded⟩
    rcases inv.written hj with old | owed
    · exact .inl old
    obtain ⟨tok', mem, open_, owes⟩ := owed
    obtain ⟨k, hk⟩ := List.getElem?_of_mem mem
    by_cases same : i = k
    · subst same
      cases tok.symm.trans hk
      obtain ⟨-, none | ⟨e, rfl, rfl | ⟨n, q, rfl, only⟩⟩⟩ := settled
      · rw [none] at owes
        cases owes
      · have bound := (List.getElem?_eq_some_iff.mp tok).1
        exact .inr ⟨_, List.mem_set bound _, .inr rfl, owes⟩
      · -- the override raises with its job as its row
        refine .inl ?_
        cases only j owes
        have raised : p = .raise e := by
          cases p <;> cases res
          rfl
        subst raised
        have as := met.1
        simp only [Meets, settling, at_, decide_eq_true_eq] at as
        rw [← as, hj]
    · refine .inr ⟨tok', List.mem_of_getElem? (i := k) ?_, open_, owes⟩
      rwa [List.getElem?_set_ne same]
  crash _ _ inv _ again := by
    cases again
    exact written_restart inv.attached

end Rows

section Quiescence

variable {cfg : Settings} {c : Run cfg}

/-- No call is under way and the startup, which ends the process when it fails, has not
failed. -/
def Quiescent (c : Run cfg) : Prop := c.Quiet ∧ ∀ e, ¬ c.Ended .startup (.error e)

/-- The statuses from which nothing more is to come of a job. -/
def ended : List JobStatus := [.delivered, .failed, .revoked, .closedNoAction]

/-- Every job in memory is as its row. -/
def WrittenOut (w : World) : Prop := ∀ ⦃j job⦄, w.job? j = some job → w.row? j = some job

/-- Every job in memory is as its row, and a restart brings back just those that have not ended. -/
structure WriteThrough (w : World) : Prop where
  written : WrittenOut w
  reloaded : ∀ {j job}, w.restart.job? j = some job ↔ w.job? j = some job ∧ job.status ∉ ended

/-- No job in memory was closed without an action. -/
def World.noneClosed (w : World) : Bool :=
  w.jobs.entries.all fun e => e.2.status ≠ .closedNoAction

theorem noneClosed_iff {w : World} : w.noneClosed = true ↔
    ∀ j job, w.job? j = some job → job.status ≠ .closedNoAction := by
  constructor
  · intro all j job hj
    exact of_decide_eq_true (List.all_eq_true.mp all (j, job) (Dict.get?_eq_some_iff.mp hj))
  · intro all
    refine List.all_eq_true.mpr fun e mem => decide_eq_true ?_
    exact all e.1 e.2 (Dict.get?_eq_some_iff.mpr mem)

theorem resident_iff {job : Job} :
    resident job = true ↔ job.status ∉ ended ∨ job.status = .closedNoAction := by
  unfold resident ended
  cases job.status <;> decide

/-- When no call is under way, no token accounts for a difference. -/
theorem writtenOut_of_quiescent {toks : (accounts cfg).Toks}
    (tracks : (accounts cfg).Tracks c toks) (inv : Written cfg c.state toks)
    (quiet : Quiescent c) : WrittenOut c.state := by
  intro j job hj
  refine (inv.written hj).resolve_right ?_
  rintro ⟨⟨t, τ⟩, mem, open_, owes⟩
  obtain ⟨i, tok⟩ := List.getElem?_of_mem mem
  have bound : i < c.threads.length := tracks.length ▸ (List.getElem?_eq_some_iff.mp tok).1
  have at_ : c.threads[i]? = some c.threads[i] := List.getElem?_eq_getElem bound
  have fin := quiet.1.2 _ (List.mem_of_getElem? at_)
  rcases tracks.stopped at_ tok (by simp [quiet.1.1]) with waits | done
  · obtain ⟨-, -, -, q, k, eq, -⟩ := waits
    rw [eq] at fin
    exact fin
  · obtain ⟨r, τ₀, s₀, res, settled, -, rfl⟩ := done
    rcases open_ with running | rfl
    · cases running
    · have tag : Call.startup = c.threads[i].1 := tracks.tags at_ tok
      obtain ⟨-, none | ⟨e, rfl, -⟩⟩ := settled
      · have owes : j ∈ τ₀.behind := owes
        rw [none] at owes
        cases owes
      · revert at_ res
        generalize c.threads[i] = th at tag
        obtain ⟨t, p⟩ := th
        cases tag
        exact fun at_ res => quiet.2 e ⟨i, p, at_, res⟩

/-- A restart brings back what is in memory and no delivered, failed or revoked job. -/
theorem restart_iff {toks : (accounts cfg).Toks} {w : World} (inv : Written cfg w toks)
    (written : WrittenOut w) {j : JobId} {job : Job} :
    w.restart.job? j = some job ↔ w.job? j = some job ∧ resident job = true := by
  obtain ⟨rows, hr⟩ := Option.isSome_iff_exists.mp inv.attached
  obtain ⟨db, hd, rfl⟩ := Option.map_eq_some_iff.mp hr
  refine ⟨fun hj => ?_, fun ⟨hj, stays⟩ => ?_⟩
  · obtain ⟨db', hd', row, stays⟩ := restart_job hj
    have row : w.row? j = some job := by rw [World.row?, hd']; exact row
    obtain ⟨job', hj'⟩ := Option.isSome_iff_exists.mp (inv.loaded row stays)
    cases (written hj').symm.trans row
    exact ⟨hj', stays⟩
  · have row := written hj
    rw [World.row?, hd, Option.bind_some] at row
    simp [World.job?, World.restart, hd, loadJobs, Dict.get?_filter, row, Option.filter, stays]

theorem writeThrough_iff {toks : (accounts cfg).Toks} {w : World} (inv : Written cfg w toks)
    (written : WrittenOut w) : WriteThrough w ↔ w.noneClosed = true := by
  rw [noneClosed_iff]
  constructor
  · intro through j job hj closed
    have again := (restart_iff inv written).mpr ⟨hj, resident_iff.mpr (.inr closed)⟩
    exact (through.reloaded.mp again).2 (by rw [closed]; decide)
  · refine fun none_ => ⟨written, fun {j job} => ?_⟩
    rw [restart_iff inv written, resident_iff]
    exact and_congr_right fun hj => or_iff_left (none_ j job hj)

/-- In every run that meets the condition, no step loses a row, and whenever nothing is under way
memory and the jobs table agree, and a restart brings back just the jobs that have not ended if and
only if none was closed without an action. -/
theorem writes_through
    (run : Reach (orchestrator cfg) (Meets settling) (.boot _ (World.initial true)) c) :
    (∀ {l c'}, settling c l = true → Step (orchestrator cfg) c l c' →
      RowsKept c.state c'.state) ∧
    (Quiescent c → WrittenOut c.state ∧ (WriteThrough c.state ↔ c.state.noneClosed = true)) := by
  have distinct {c : Run cfg}
      (run : Reach (orchestrator cfg) (Meets settling) (.boot _ (World.initial true)) c) :
      Distinct c.state.view := by
    obtain ⟨toks, -, -, inv⟩ := Invariant.reach (base cfg) (distinct cfg) (Plan.tracks_boot _)
      (base_initial true) (distinct_initial true) run
    exact inv
  have initial : Written cfg (World.initial true) [] :=
    ⟨rfl, nofun, fun hr => by cases hr⟩
  obtain ⟨toks, tracks, inv⟩ := Plan.reach (accounts_sound cfg).under (written cfg)
    (Plan.tracks_boot _) initial (run.knowing distinct)
  refine ⟨fun {l c'} met next => ?_, fun quiet => ?_⟩
  case refine_2 =>
    have written := writtenOut_of_quiescent tracks inv quiet
    exact ⟨written, writeThrough_iff inv written⟩
  obtain ⟨toks', -, -, effect⟩ := Plan.step_effect (accounts_sound cfg).under (written cfg) tracks
    inv ⟨met, distinct run⟩ next
  generalize c'.state = w' at effect
  cases effect with
  | start | quiet | finish => exact fun hr => .inl hr
  | move _ hm => exact posts_rows hm.2 inv.attached (distinct run)
  | crash again =>
    cases again
    intro j row hr
    refine .inl ?_
    obtain ⟨db, hd, found⟩ := Option.bind_eq_some_iff.mp hr
    simp [World.row?, World.restart, hd, Database.purgeTerminalKeys, found]

/-- Nothing is under way, and the startup has not failed. -/
def settled (c : Run cfg) : Bool :=
  c.running.isNone && c.threads.all fun th =>
    decide th.2.Finished && !(th matches ⟨.startup, .raise _⟩)

theorem quiescent_of_settled (h : settled c = true) : Quiescent c := by
  obtain ⟨idle, all⟩ := Bool.and_eq_true_iff.mp h
  have each {th : Thread (orchestrator cfg)} (mem : th ∈ c.threads) :
      th.2.Finished ∧ ∀ e, th ≠ ⟨.startup, .raise e⟩ := by
    have := List.all_eq_true.mp all th mem
    obtain ⟨fin, up⟩ := Bool.and_eq_true_iff.mp this
    refine ⟨of_decide_eq_true fin, ?_⟩
    rintro e rfl
    cases up
  refine ⟨⟨Option.isNone_iff_eq_none.mp idle, fun th mem => (each mem).1⟩, ?_⟩
  rintro e ⟨i, p, at_, raised⟩
  cases p with
  | raise e' => exact (each (List.mem_of_getElem? at_)).2 e' rfl
  | _ => cases raised

/-- The next step of a computed run that passes a test. -/
theorem step_of_tick (test : Run cfg → Run cfg → Bool)
    (h : ((driver cfg).tick c).any (fun r => test c r.2) = true) :
    ∃ l c', Step (orchestrator cfg) c l c' ∧ test c c' = true := by
  obtain ⟨⟨l, c'⟩, next, holds⟩ := (Option.any_eq_true _ _).mp h
  exact ⟨l, c', Driver.tick_step next, holds⟩

/-- Two jobs are submitted, one is delivered and one is redirected. -/
theorem writes_through_witness :
    (∃ c c' : Run plain, (c.state.row? (uuid 1)).isSome = true ∧ RowsKept c.state c'.state) ∧
      ∃ c : Run plain, Quiescent c ∧ (c.state.job? (uuid 1)).isSome = true ∧
        WriteThrough c.state := by
  obtain ⟨c, run, seen⟩ := reached (guards_meets settling) (fresh plain true)
    [.start .startup, .finish 0, .start (.submit (request (some "k"))), .finish 1,
      .start (.worker (uuid 1)), .finish 2, .start (.submit (request (some "k'"))), .finish 3]
    (fun c => settled c && (c.state.job? (uuid 1)).isSome && (c.state.row? (uuid 1)).isSome &&
      settling c .crash && c.state.noneClosed) (by decide +kernel)
  obtain ⟨⟨⟨⟨still, job⟩, row⟩, met⟩, none_⟩ := by simpa only [Bool.and_eq_true] using seen
  have quiet := quiescent_of_settled still
  exact ⟨⟨c, _, row, (writes_through run).1 met (.crash rfl)⟩, c, quiet, job,
    ((writes_through run).2 quiet).2.mpr none_⟩

/-- A key is used again after a restart: writing out the new job removes the row of the old one.
A redirect before delivery to an unknown capability fails the job in memory alone. A job that a
review has closed without an action is loaded again. -/
theorem row_replaced_and_unwritten :
    (∃ (c c' : Run plain) (l : Label (orchestrator plain)),
      Reach (orchestrator plain) (Anyhow plain) (.boot _ (World.initial true)) c ∧
        Step (orchestrator plain) c l c' ∧ ¬ RowsKept c.state c'.state) ∧
      (∃ c : Run plain, Reach (orchestrator plain) (Anyhow plain) (.boot _ (World.initial true)) c ∧
        Quiescent c ∧ ¬ WrittenOut c.state) ∧
      ∃ c : Run checked, Reach (orchestrator checked) (Anyhow checked)
        (.boot _ (World.initial true)) c ∧ Quiescent c ∧ ¬ WriteThrough c.state := by
  refine ⟨?replaced, ?unwritten, ?closed⟩
  case replaced =>
    obtain ⟨c, run, seen⟩ := reached (guards_anyhow plain) (fresh plain true)
      [.start .startup, .finish 0, .start (.submit (request (some "k"))), .finish 1,
        .start (.worker (uuid 1)), .finish 2, .crash, .start .startup, .finish 0,
        .start (.submit (request (some "k"))), .pause 1 5]
      (fun c => ((driver plain).tick c).any fun r =>
        (c.state.row? (uuid 1)).isSome && (c.state.job? (uuid 1)).isNone &&
          (r.2.state.row? (uuid 1)).isNone) (by decide +kernel)
    obtain ⟨l, c', next, holds⟩ := step_of_tick (fun c c' =>
      (c.state.row? (uuid 1)).isSome && (c.state.job? (uuid 1)).isNone &&
        (c'.state.row? (uuid 1)).isNone) seen
    obtain ⟨⟨row, job⟩, gone⟩ := by simpa only [Bool.and_eq_true] using holds
    refine ⟨c, c', l, run, next, fun kept => ?_⟩
    obtain ⟨old, hr⟩ := Option.isSome_iff_exists.mp row
    rcases kept hr with same | ⟨here, -⟩
    · simp [same] at gone
    · simp [Option.isNone_iff_eq_none.mp job] at here
  case unwritten =>
    obtain ⟨c, run, seen⟩ := reached (guards_anyhow plain) (fresh plain true)
      [.start .startup, .finish 0, .start (.submit (request (some "k"))), .finish 1,
        .start (.override (uuid 1) ⟨"redirect", "routing", "nowhere", "phone", none⟩), .finish 2]
      (fun c => settled c && (c.state.job? (uuid 1)).isSome &&
        c.state.row? (uuid 1) ≠ c.state.job? (uuid 1)) (by decide +kernel)
    obtain ⟨⟨still, here⟩, differ⟩ := by simpa only [Bool.and_eq_true] using seen
    refine ⟨c, run, quiescent_of_settled still, fun agree => ?_⟩
    obtain ⟨job, hj⟩ := Option.isSome_iff_exists.mp here
    exact of_decide_eq_true differ ((agree hj).trans hj.symm)
  case closed =>
    obtain ⟨c, run, seen⟩ := reached (guards_anyhow checked) (fresh checked true)
      [.start .startup, .finish 0, .start (grant "pre_delivery"), .start (.submit (request none)),
        .finish 2, .start (.worker (uuid 2)), .finish 3, .start (.review (uuid 2)
          ⟨"decline_to_act", "00000000-0007-7000-8000-000000000000", "answer", "key", none⟩
          "phone"), .finish 4]
      (fun c => settled c && (c.state.restart.job? (uuid 2)).any (·.status = .closedNoAction))
      (by decide +kernel)
    obtain ⟨still, loaded⟩ := by simpa only [Bool.and_eq_true] using seen
    refine ⟨c, run, quiescent_of_settled still, fun through => ?_⟩
    obtain ⟨job, hj, closed⟩ := (Option.any_eq_true _ _).mp loaded
    refine (through.reloaded.mp hj).2 ?_
    rw [of_decide_eq_true closed]
    decide

end Quiescence

end Drnt.Orchestrator
