import Drnt.Orchestrator.FailClosed
import Drnt.Orchestrator.Terminal

/-! Every status that ends a job has its event in the audit log once nothing is under way, as
long as no job is failed in silence and no crash cuts a review off from its event. -/
namespace Drnt.Orchestrator

open Lib Lib.Coop Trial

section Recorded

/-- The lifecycle event of a status. -/
def JobStatus.event (st : JobStatus) : String := "job." ++ st.value

/-- The full queue and the handler of the worker loop fail a job without an event. -/
def Core.silent (c : Core) : Bool :=
  c.status = .failed && (c.error = some queueFullError || c.error = some pipelineError)

/-- The job has been closed, and its event is still to come. -/
def DecisionPhase.closing : DecisionPhase → Bool
  | reserved | announced | ending => true
  | accepted | settled | concluded _ | aborted => false

def Closing (toks : Toks) (j : JobId) : Prop :=
  ∃ t d p succ, (t, .decides j d p succ) ∈ toks ∧ d.endStatus = .closedNoAction ∧ p.closing

/-- What there is for a status that ends a job: its event, the loss of some event, or the
review that is about to emit it. -/
def Accounted (v : View) (toks : Toks) (j : JobId) (st : JobStatus) : Prop :=
  v.Lost ∨ v.Told st.event j ∨ st = .closedNoAction ∧ Closing toks j

structure Recorded (v : View) (toks : Toks) : Prop where
  core : ∀ {j c}, v.core j = some c → c.status.live = false → Accounted v toks j c.status
  row : ∀ {j c}, v.row j = some c → c.status.live = false → Accounted v toks j c.status
  told : ∀ {t j d p succ}, (t, .decides j d p succ) ∈ toks →
    p = .settled ∨ p.outcome?.isSome → v.Told d.endType j

variable {v : View} {toks : Toks} {i : Nat} {t : Call} {τ τ' : Tok} {a : Act} {j : JobId}
  {g : Core → Core} {c : Core} {st : JobStatus}

theorem lost_here (e : Event) : ((Act.observe (.answered e .lost)).apply v).Lost :=
  ⟨e, List.mem_append_right _ (List.mem_singleton_self _)⟩

/-- A closed job keeps its review until the event is out. -/
theorem closing_move (at_ : toks[i]? = some (t, τ)) (h : Allowed τ v a τ')
    (closing : Closing toks j) :
    Accounted (a.apply v) (toks.set i (t, τ')) j .closedNoAction := by
  obtain ⟨t₀, d, p, succ, hm, closes, early⟩ := closing
  obtain ⟨k, hk⟩ := List.getElem?_of_mem hm
  have stays {p : DecisionPhase} {succ : Successor} (early : p.closing)
      (hm : (t₀, .decides j d p succ) ∈ toks.set i (t, τ')) :
      Accounted (a.apply v) (toks.set i (t, τ')) j .closedNoAction :=
    .inr (.inr ⟨rfl, t₀, d, p, succ, hm, closes, early⟩)
  by_cases same : i = k
  · subst same
    cases at_.symm.trans hk
    have next {p : DecisionPhase} {succ : Successor} (early : p.closing)
        (eq : τ' = .decides j d p succ) :
        Accounted (a.apply v) (toks.set i (t, τ')) j .closedNoAction := by
      subst eq
      exact stays early (List.mem_of_getElem? (set_at at_))
    have event : d.endType = JobStatus.closedNoAction.event := by
      rw [← closes]
      rfl
    cases h with
    | announce | announceReview | endEvent => exact next rfl rfl
    | settle told => exact .inr (.inl (event ▸ told))
    | conclude _ _ ready =>
      rcases ready with rfl | ⟨-, -, told⟩
      · cases early
      · exact .inr (.inl told)
    | abort => exact .inl (lost_here _)
    | reserve => cases early
    | quiet | persist | note | mint | reserveAgain | mintSuccessor | storeSuccessor
    | enqueueSuccessor | failSuccessor => exact next early rfl
  · have kept : (toks.set i (t, τ'))[k]? = some (t₀, .decides j d p succ) := by
      rw [List.getElem?_set_ne same]
      exact hk
    exact stays early (List.mem_of_getElem? kept)

theorem accounted_move (at_ : toks[i]? = some (t, τ)) (h : Allowed τ v a τ')
    (before : Accounted v toks j st) : Accounted (a.apply v) (toks.set i (t, τ')) j st := by
  rcases before with lost | told | ⟨rfl, closing⟩
  · exact .inl (lost_grown lost h.grows)
  · exact .inr (.inl (told_grown told h.grows))
  · exact closing_move at_ h closing

/-- How a job comes to a status that ends it. -/
theorem allowed_ends (h : Allowed τ v (.revise j g) τ') (ended : (g c).status.live = false) :
    (g c).status = c.status ∨ v.Lost ∨ v.Told (g c).status.event j ∨
      (g c).status = .closedNoAction ∧
        (∃ d succ, τ' = .decides j d .reserved succ ∧ d.endStatus = .closedNoAction) ∨
      (g c).silent := by
  cases h with
  | failNew | failSuccessor => exact .inr (.inr (.inr (.inr rfl)))
  | classify | propose | bootReset => cases ended
  | progress status => rcases status with rfl | rfl <;> cases ended
  | deliver told | bootDeliver told | bootFail told => exact .inr (.inr (.inl told))
  | fail _ hg told =>
    have failed : (g c).status = .failed := by rw [hg c]; rfl
    rcases told with told | lost | rfl
    · exact .inr (.inr (.inl (failed ▸ told)))
    · exact .inr (.inl lost)
    · refine .inr (.inr (.inr (.inr ?_)))
      rw [hg c]
      rfl
  | reserve =>
    rename_i d succ
    rcases reserve_status d c with same | ⟨closes, closed⟩
    · exact .inl same
    · exact .inr (.inr (.inr (.inl ⟨closed, d, succ, rfl, closes⟩)))
  | settle told hg =>
    rename_i d succ error
    refine .inr (.inr (.inl ?_))
    rcases hg with rfl | rfl
    · exact told
    · rcases reserve_status d (c.closes d.endStatus error) with same | ⟨closes, closed⟩
      · exact same ▸ told
      · exact closed ▸ closes ▸ told
  | reserveAgain | bootRecount | bootCount | autoAccept => exact .inl rfl

/-- A decision that is settled has had its event. -/
theorem allowed_settled {d : Decision} {p : DecisionPhase} {succ : Successor}
    (h : Allowed τ v a τ') (ht : τ' = .decides j d p succ)
    (done : p = .settled ∨ p.outcome?.isSome) :
    v.Told d.endType j ∨ ∃ p succ, τ = .decides j d p succ ∧ (p = .settled ∨ p.outcome?.isSome) := by
  subst ht
  cases h with
  | reserve | announce | announceReview | endEvent | abort =>
    rcases done with done | done <;> cases done
  | settle told => exact .inl told
  | conclude _ _ ready =>
    rcases ready with rfl | ⟨-, decline, told⟩
    · exact .inr ⟨_, _, rfl, .inl rfl⟩
    · refine .inl ?_
      simpa [Decision.endType, Decision.endStatus, Decision.reviewEnd, decline,
        JobStatus.value] using told
  | _ => exact .inr ⟨_, _, rfl, done⟩

/-- A job that is failed in silence was so before, or its event is in the log already. -/
def Spoken (v : View) (a : Act) : Prop :=
  ∀ j c, (a.apply v).core j = some c → c.silent →
    (∃ c₀, v.core j = some c₀ ∧ c₀.silent) ∨ v.Told "job.failed" j

theorem recorded_move (inv : Recorded v toks) (at_ : toks[i]? = some (t, τ))
    (spoken : Spoken v a) (h : Allowed τ v a τ') :
    Recorded (a.apply v) (toks.set i (t, τ')) := by
  have mem : (t, τ) ∈ toks := List.mem_of_getElem? at_
  have moved {j : JobId} {st : JobStatus} (before : Accounted v toks j st) :
      Accounted (a.apply v) (toks.set i (t, τ')) j st := accounted_move at_ h before
  constructor
  case core =>
    intro j c hc ended
    by_cases silent : c.silent
    · have failed : c.status = .failed := by
        simp only [Core.silent, Bool.and_eq_true, decide_eq_true_eq] at silent
        exact silent.1
      rw [failed]
      rcases spoken j c hc silent with ⟨c₀, hc₀, before⟩ | told
      · simp only [Core.silent, Bool.and_eq_true, decide_eq_true_eq] at before
        exact before.1 ▸ moved (inv.core hc₀ (by rw [before.1]; rfl))
      · exact moved (.inr (.inl told))
    rcases core_cases hc with same | ⟨g, c₀, rfl, hc₀, rfl⟩ | rfl
    · exact moved (inv.core same ended)
    · rcases allowed_ends h ended with same | lost | told | ⟨closed, d, succ, rfl, closes⟩ | silent'
      · rw [same] at ended ⊢
        exact moved (inv.core hc₀ ended)
      · exact moved (.inl lost)
      · exact moved (.inr (.inl told))
      · exact .inr (.inr ⟨closed, t, d, _, succ, List.mem_of_getElem? (set_at at_), closes, rfl⟩)
      · exact absurd silent' silent
    · cases h with
      | store | storeSuccessor => cases ended
  case row =>
    intro j c hr ended
    rcases apply_row hr with old | hc
    · exact moved (inv.row old ended)
    · exact moved (inv.core hc ended)
  case told =>
    intro t' j d p succ hm done
    rcases mem_set hm with eq | ⟨k, -, hk⟩
    · cases eq
      rcases allowed_settled h rfl done with told | ⟨p', succ', rfl, before⟩
      · exact told_grown told h.grows
      · exact told_grown (inv.told mem before) h.grows
    · exact told_grown (inv.told (List.mem_of_getElem? hk) done) h.grows

theorem accounted_start (before : Accounted v toks j st) (t : Call) (τ : Tok) :
    Accounted v (toks ++ [(t, τ)]) j st := by
  rcases before with lost | told | ⟨rfl, t₀, d, p, succ, hm, closing⟩
  · exact .inl lost
  · exact .inr (.inl told)
  · exact .inr (.inr ⟨rfl, t₀, d, p, succ, List.mem_append_left _ hm, closing⟩)

theorem recorded_start {w : World} (inv : Recorded w.view toks) (t : Call) :
    Recorded w.view (toks ++ [(t, first t w)]) where
  core hc ended := accounted_start (inv.core hc ended) t _
  row hr ended := accounted_start (inv.row hr ended) t _
  told {t' j d p succ} hm done := by
    rcases List.mem_append.mp hm with hm | hm
    · exact inv.told hm done
    · have new := (Prod.mk.inj (List.mem_singleton.mp hm)).2
      by_cases other : t = .startup
      · subst other
        cases new
      · have unwritten := new ▸ first_unwritten w other
        cases unwritten
        rcases done with done | done <;> cases done

/-- No review returns between closing its job and the event of that. -/
theorem ends_open {cfg : Settings} {w : World} {r : Except Exc t.Res} {d : Decision}
    {p : DecisionPhase} {succ : Successor} (fits : (Tok.decides j d p succ).fits t)
    (ends : Ends cfg t r (.decides j d p succ) w) (closes : d.endStatus = .closedNoAction) :
    p.closing = false := by
  obtain ⟨payload, rfl, decline⟩ := endStatus_closed d closes
  obtain ⟨⟨-, q, device, rfl, rfl⟩, -⟩ := fits
  rcases (ends.decided _ _ _ rfl).2 with ⟨record, rfl, -⟩ | ⟨rfl, -⟩ | ⟨-, -, edit⟩
  · rfl
  · rfl
  · have decline : q.decision = "decline_to_act" := decline
    rw [edit] at decline
    exact absurd decline (by decide)

theorem recorded_finish {cfg : Settings} {w : World} {r : Except Exc t.Res}
    (base : Base w.view toks) (inv : Recorded w.view toks) (at_ : toks[i]? = some (t, τ))
    (ends : Ends cfg t r τ w) : Recorded w.view (toks.set i (t, τ.retire)) := by
  have kept {j : JobId} {st : JobStatus} (before : Accounted w.view toks j st) :
      Accounted w.view (toks.set i (t, τ.retire)) j st := by
    rcases before with lost | told | ⟨rfl, t₀, d, p, succ, hm, closes, early⟩
    · exact .inl lost
    · exact .inr (.inl told)
    · obtain ⟨k, hk⟩ := List.getElem?_of_mem hm
      have other : i ≠ k := by
        rintro rfl
        cases at_.symm.trans hk
        rw [ends_open (base.1.fits hm) ends closes] at early
        cases early
      have stays : (toks.set i (t, τ.retire))[k]? = some (t₀, .decides j d p succ) := by
        rw [List.getElem?_set_ne other]
        exact hk
      exact .inr (.inr ⟨rfl, t₀, d, p, succ, List.mem_of_getElem? stays, closes, early⟩)
  constructor
  case core => exact fun hc ended => kept (inv.core hc ended)
  case row => exact fun hr ended => kept (inv.row hr ended)
  case told =>
    intro t' j d p succ hm done
    rcases mem_set hm with eq | ⟨k, -, hk⟩
    · exact absurd (Prod.mk.inj eq).2.symm ((retire_spent τ).decides j d p succ)
    · exact inv.told (List.mem_of_getElem? hk) done

end Recorded

section Accountable

/-- The audit log has such an event about the job. -/
def World.logged (w : World) (type : String) (j : JobId) : Bool :=
  w.trace.any fun
    | .answered e .acknowledged => decide (e.eventType = type ∧ e.jobId = some j)
    | _ => false

/-- A write fails a job in silence only when the log has its job.failed event already. -/
def failsAloud (w w' : World) : Bool :=
  w'.jobs.entries.all fun e => !e.2.core.silent || (w.job? e.1).any (·.core.silent) ||
    w.logged "job.failed" e.1

/-- Every stored job that is closed has its event. -/
def World.closedAloud (w : World) : Bool :=
  w.db.all fun db => db.jobs.entries.all fun e =>
    e.2.status ≠ .closedNoAction || w.logged "job.closed_no_action" e.1

/-- No job is failed in silence, and no crash comes between the closing of a job and its
event. -/
def accountable {cfg : Settings} (c : Run cfg) : Label (orchestrator cfg) → Bool
  | .work i =>
    match (c.threads[i]? : Option (Thread (orchestrator cfg))) with
    | some ⟨_, .set w _⟩ => failsAloud c.state w
    | _ => true
  | .crash => c.state.closedAloud
  | .start _ | .answer _ _ _ => true

variable {cfg : Settings} {c : Run cfg} {toks : Toks} {j : JobId} {job : Job}

theorem told_of_logged {w : World} {type : String} (h : w.logged type j = true) :
    w.view.Told type j := by
  obtain ⟨o, mem, holds⟩ := List.any_eq_true.mp h
  split at holds
  · rename_i e
    obtain ⟨isType, about⟩ := of_decide_eq_true holds
    exact ⟨e, isType, about, .acknowledged, nofun, mem⟩
  · cases holds

theorem spoken_of_writes {v : View} {t : Call} {a : Act}
    (writes : Writes cfg (Meets accountable) t v (a.apply v)) : Spoken v a := by
  obtain ⟨c, i, w, k, at_, met, rfl, after⟩ := writes
  have aloud : failsAloud c.state w = true := by
    simpa only [Meets, accountable, at_] using met
  intro j core hc silent
  rw [← after, view_core] at hc
  obtain ⟨job, hj, rfl⟩ := Option.map_eq_some_iff.mp hc
  have := List.all_eq_true.mp aloud (j, job) (Dict.get?_eq_some_iff.mp hj)
  simp only [silent, Bool.not_true, Bool.false_or, Bool.or_eq_true] at this
  rcases this with before | logged
  · obtain ⟨job₀, hj₀, silent₀⟩ := (Option.any_eq_true _ _).mp before
    exact .inl ⟨job₀.core, by simp [hj₀], silent₀⟩
  · exact .inr (told_of_logged logged)

theorem recorded_restart {w : World} (aloud : w.closedAloud = true) (inv : Recorded w.view toks) :
    Recorded w.restart.view [] := by
  have row {j : JobId} {core : Core} (hr : w.view.row j = some core)
      (ended : core.status.live = false) : Accounted w.restart.view [] j core.status := by
    rcases inv.row hr ended with lost | told | ⟨closed, -⟩
    · exact .inl lost
    · exact .inr (.inl told)
    · rw [view_row] at hr
      obtain ⟨job, found, rfl⟩ := Option.map_eq_some_iff.mp hr
      obtain ⟨db, hdb, hj⟩ := Option.bind_eq_some_iff.mp found
      simp only [World.closedAloud, hdb, Option.all_some, List.all_eq_true] at aloud
      have closed : job.status = .closedNoAction := closed
      have logged := aloud (j, job) (Dict.get?_eq_some_iff.mp hj)
      simp only [closed, ne_eq, not_true_eq_false, decide_false, Bool.false_or] at logged
      refine .inr (.inl ?_)
      change w.view.Told job.status.event j
      rw [closed]
      exact told_of_logged logged
  constructor
  case core => exact fun hc ended => row (restart_core hc) ended
  case row => exact fun hr ended => row (restart_row w _ ▸ hr) ended
  case told => exact fun hm => by cases hm

theorem recording (cfg : Settings) : Invariant cfg (Meets accountable) Base Recorded where
  start {_ _ t} _ _ inv _ _ _ _ := recorded_start inv t
  move _ inv at_ _ writes h := recorded_move inv at_ (spoken_of_writes writes) h
  finish base inv at_ _ ends := recorded_finish base inv at_ ends
  crash _ _ inv met := recorded_restart met inv

theorem recorded_initial (persistent : Bool) : Recorded (World.initial persistent).view [] where
  core hc := by cases hc
  row hr := absurd hr initial_row
  told hm := by cases hm

/-- Every job that has ended, in memory or in its row, has its event in the audit log. -/
def Accounts (c : Run cfg) : Prop :=
  ∀ j job, c.state.job? j = some job ∨ c.state.row? j = some job → job.status.live = false →
    ∃ e, e.eventType = job.status.event ∧ e.jobId = some j ∧ c.state.Acknowledged e

theorem ended_accounts {persistent : Bool}
    (run : Reach (orchestrator cfg) (Meets accountable) (.boot _ (World.initial persistent)) c)
    (quiet : c.Quiet)
    (acknowledged : ∀ e verdict, .answered e verdict ∈ c.state.trace → verdict = .acknowledged) :
    Accounts c := by
  obtain ⟨toks, tracks, known, inv⟩ := Invariant.reach (base cfg) (recording cfg)
    (Plan.tracks_boot _) (base_initial persistent) (recorded_initial persistent) run
  intro j job found ended
  have accounted : Accounted c.state.view toks j job.status := by
    rcases found with hj | hj
    · exact inv.core (c := job.core) (by simp [hj]) ended
    · exact inv.row (c := job.core) (by simp [view_row, hj]) ended
  rcases accounted with ⟨e, lost⟩ | ⟨e, isType, about, verdict, -, mem⟩ | ⟨-, t, d, p, succ, hm, -⟩
  · cases acknowledged e .lost lost
  · cases acknowledged e verdict mem
    exact ⟨e, isType, about, mem⟩
  · obtain ⟨i, at_⟩ := List.getElem?_of_mem hm
    obtain ⟨k, q, thread, unfinished⟩ := tracks.unfinished at_ (by simp [quiet.1]) decides_live
    exact absurd (quiet.2 _ (List.mem_of_getElem? thread)) unfinished

/-- No call is under way, and the log has taken every event. -/
def quieted (c : Run cfg) : Bool :=
  c.running = none && (c.threads.all fun th => decide th.2.Finished) && c.state.trace.all fun
    | .answered _ verdict => verdict = .acknowledged
    | _ => true

theorem quieted_sound (h : quieted c = true) : c.Quiet ∧
    ∀ e verdict, .answered e verdict ∈ c.state.trace → verdict = .acknowledged := by
  simp only [quieted, Bool.and_eq_true, decide_eq_true_eq, List.all_eq_true] at h
  obtain ⟨⟨idle, finished⟩, clean⟩ := h
  exact ⟨⟨idle, finished⟩, fun e verdict mem => by simpa using clean _ mem⟩

theorem ended_accounts_witness : ∃ (c : Run plain) (job : Job),
    c.state.job? (uuid 1) = some job ∧ job.status = .revoked ∧ Accounts c := by
  obtain ⟨c, run, seen⟩ := reached (guards_meets accountable) (fresh plain true)
    [.start .startup, .finish 0, .start (.submit (request (some "k"))), .finish 1,
      .start (.worker (uuid 1)), .finish 2,
      .start (.override (uuid 1) ⟨"cancel", "", "", "phone", none⟩), .finish 3]
    (fun c => quieted c && (c.state.job? (uuid 1)).any (·.status = .revoked)) (by decide +kernel)
  obtain ⟨still, revoked⟩ := Bool.and_eq_true_iff.mp seen
  obtain ⟨quiet, acknowledged⟩ := quieted_sound still
  obtain ⟨job, hj, status⟩ := (Option.any_eq_true _ _).mp revoked
  exact ⟨c, job, hj, of_decide_eq_true status, ended_accounts run quiet acknowledged⟩

/-- The classifier gives up on a job, and the handler of the worker loop fails it in silence. -/
theorem failed_silently : ∃ c : Run plain,
    Reach (orchestrator plain) (Anyhow plain) (.boot _ (World.initial true)) c ∧ c.Quiet ∧
      (∀ e verdict, .answered e verdict ∈ c.state.trace → verdict = .acknowledged) ∧
      ¬ Accounts c := by
  obtain ⟨c, run, seen⟩ := reached (guards_anyhow plain) (fresh plain true)
    [.start .startup, .finish 0, .start (.submit (request (some "k"))), .finish 1,
      .start (.worker (uuid 1)), .resumeWith 2 unclassified]
    (fun c => quieted c && (c.state.job? (uuid 1)).any (·.status = .failed) &&
      c.state.trace.all fun
        | .answered e _ => e.eventType ≠ "job.failed"
        | _ => true) (by decide +kernel)
  obtain ⟨⟨still, failed⟩, unsaid⟩ := by
    simpa only [Bool.and_eq_true] using seen
  obtain ⟨quiet, acknowledged⟩ := quieted_sound still
  refine ⟨c, run, quiet, acknowledged, fun accounts => ?_⟩
  obtain ⟨job, hj, status⟩ := (Option.any_eq_true _ _).mp failed
  have status : job.status = .failed := of_decide_eq_true status
  obtain ⟨e, isType, -, said⟩ := accounts (uuid 1) job (.inl hj) (by rw [status]; rfl)
  rw [status] at isType
  have := List.all_eq_true.mp unsaid _ said
  simp [isType, JobStatus.event, JobStatus.value] at this

end Accountable

end Drnt.Orchestrator
