import Drnt.Orchestrator.Terminal

/-! A job that a human has stopped: no restart brings it back, as long as no stop leaves work
behind for the pipeline or for the recovery pass. -/
namespace Drnt.Orchestrator

open Lib Lib.Coop Trial

section Halted

/-- The overrides after which a job must not go on. -/
def stops : List String := ["cancel", "redirect", "escalate"]

/-- The job has been stopped by a human. -/
def Core.stopped (c : Core) : Bool := c.overrideType.any (· ∈ stops)

/-- An override of the job is set, and it is not one that delivers it. -/
def Core.barred (c : Core) : Bool := c.overrideType.any (· ≠ "modify")

/-- The recovery pass queues or delivers a job that it finds so. -/
def Core.recovers (c : Core) : Bool :=
  c.status = .responseReceived ||
    (c.status ∈ queueable && c.recoveryDispatchCount < maxRecoveryDispatches)

def BootPhase.drives (j : JobId) : BootPhase → Prop
  | resetting i | queueing i | delivering i => i = j
  | rising | between | failing _ | kept => False

/-- The call goes on to queue, to dispatch or to deliver the job. -/
def Tok.drives (j : JobId) : Tok → Prop
  | submits _ _ p => p.executes j
  | decides _ _ _ succ => succ.executes j
  | works i stage => i = j ∧ stage ≠ .closed
  | boots _ p => p.drives j
  | idle | refused | decided _ _ _ | defers _ _ | repeats _ | fetches _ | polls _ => False

/-- Nobody goes on with the job, and the startup finds nothing to do for it. -/
structure Halted (j : JobId) (v : View) (toks : Toks) : Prop where
  issued : j ∈ v.issued
  unpending : ∀ tok ∈ toks, ¬ tok.2.pending j
  unqueued : j ∉ v.queue
  idle : ∀ tok ∈ toks, ¬ tok.2.drives j
  settled : v.phase ≠ .serving → ∀ c, v.core j = some c → c.recovers = false
  decisions : ∀ {t d p succ}, (t, .decides j d p succ) ∈ toks →
    ∃ type st, d = .override type st ∧ type ≠ "modify"

/-- The job is halted and shows it to every later decision. -/
structure Barred (j : JobId) (v : View) (toks : Toks) : Prop extends Halted j v toks where
  barred : ∀ c, v.core j = some c → c.barred

structure Stops (v : View) (toks : Toks) : Prop where
  ready : ∀ {t j type st succ}, (t, .decides j (.override type st) .accepted succ) ∈ toks →
    type ∈ stops → Halted j v toks
  taken : ∀ {t j type st p succ}, (t, .decides j (.override type st) p succ) ∈ toks →
    p ≠ .accepted → type ∈ stops → Barred j v toks
  core : ∀ {j c}, v.core j = some c → c.stopped → Barred j v toks
  row : ∀ {j c}, v.row j = some c → c.stopped → Barred j v toks

variable {v : View} {toks : Toks} {i : Nat} {t : Call} {τ τ' : Tok} {a : Act} {j : JobId}
  {g : Core → Core} {c : Core}

theorem stop_bars {type : String} (h : type ∈ stops) : type ≠ "modify" := by
  rintro rfl
  simp [stops] at h

theorem barred_of_stopped (h : c.stopped) : c.barred := by
  obtain ⟨type, eq, stop⟩ := (Option.any_eq_true _ _).mp h
  refine (Option.any_eq_true _ _).mpr ⟨type, eq, ?_⟩
  simpa using stop_bars (by simpa using stop)

theorem executes_of_drives (h : τ.drives j) : τ.executes j := by
  cases τ with
  | boots todo p => cases p <;> first | exact h | exact h.elim
  | _ => exact h

theorem overrideEnd_delivered {type : String} {st : JobStatus} (h : type ≠ "modify") :
    (Decision.override type st).endStatus ≠ .delivered := by
  simp only [Decision.endStatus, Decision.overrideEnd, h, if_false]
  split <;> simp

/-- What a revision does to the override of a job. -/
theorem allowed_override (h : Allowed τ v (.revise j g) τ') (c : Core) :
    (g c).overrideType = c.overrideType ∨
      (∃ type st p succ, τ = .decides j (.override type st) p succ ∧
        (g c).overrideType = some type) ∨
      (g c).overrideType = some "auto_delivered" := by
  have reserved (d : Decision) (c : Core) : (d.reserve c).overrideType = c.overrideType ∨
      ∃ type st, d = .override type st ∧ (d.reserve c).overrideType = some type := by
    cases d with
    | override type st => exact .inr ⟨type, st, rfl, rfl⟩
    | review => exact .inl rfl
  cases h with
  | reserve =>
    rename_i d succ
    rcases reserved d c with same | ⟨type, st, rfl, set⟩
    · exact .inl same
    · exact .inr (.inl ⟨type, st, _, _, rfl, set⟩)
  | reserveAgain => exact .inr (.inl ⟨_, _, _, _, rfl, rfl⟩)
  | settle _ h =>
    rcases h with rfl | rfl
    · exact .inl rfl
    · rename_i d succ error told
      rcases reserved d (c.closes d.endStatus error) with same | ⟨type, st, rfl, set⟩
      · exact .inl same
      · exact .inr (.inl ⟨type, st, _, _, rfl, set⟩)
  | fail _ h => rw [h c]; exact .inl rfl
  | autoAccept => exact .inr (.inr rfl)
  | _ => exact .inl rfl

/-- Only what is driven, queued, newly made or found by the startup is driven next. -/
theorem allowed_drives (h : Allowed τ v a τ') (drives : τ'.drives j) :
    τ.drives j ∨ j ∈ v.queue ∨ (∃ c, a = .add j c) ∨
      ∃ todo, τ = .boots todo .between ∧ j ∈ todo ∧
        ∀ c, v.core j = some c → c.recovers := by
  have found {c : Core} (status : c.status ∈ queueable)
      (under : c.recoveryDispatchCount < maxRecoveryDispatches) : c.recovers := by
    simp [Core.recovers, status, under]
  cases h with
  | fetch head =>
    obtain ⟨rfl, -⟩ := drives
    exact .inr (.inl (List.mem_of_mem_head? head))
  | store | storeSuccessor => cases drives; exact .inr (.inr (.inl ⟨_, rfl⟩))
  | bootReset mem status under | bootCount mem status under =>
    cases drives
    exact .inr (.inr (.inr ⟨_, rfl, mem, fun c hc => found (status c hc) (under c hc)⟩))
  | bootDeliverEvent mem _ status =>
    cases drives
    exact .inr (.inr (.inr ⟨_, rfl, mem, fun c hc => by simp [Core.recovers, status c hc]⟩))
  | failEvent ready => exact .inl ⟨drives.1, fun closed => by simp [closed, Stage.done] at ready⟩
  | classify | authorise | dispatch | call | receive | progress | propose | deliverEvent =>
    exact .inl ⟨drives.1, (by simp)⟩
  | proposeEvent | deliver | fail | close => exact absurd rfl drives.2
  | bootFailEvent | enqueueNew | failNew | enqueueSuccessor | failSuccessor | mintJob
  | mintSuccessor | bind | release | boot | bootFail | bootEnqueue | bootDrop | bootDeliver
  | bootScan | bootKept | serve => exact drives.elim
  | _ => exact .inl drives

/-- The queue takes in only what was driven. -/
theorem queue_drives (h : Allowed τ v a τ') (hq : j ∈ (a.apply v).queue) :
    j ∈ v.queue ∨ τ.drives j := by
  cases h with
  | enqueueNew | enqueueSuccessor | bootEnqueue =>
    exact (List.mem_append.mp hq).imp id fun new => (List.mem_singleton.mp new).symm
  | fetch => exact .inl (List.mem_of_mem_tail hq)
  | _ => exact .inl hq

/-- Outside of service only the startup writes to a job. -/
theorem revise_early (h : Allowed τ v (.revise j g) τ') (phased : τ.phased v.phase)
    (early : v.phase ≠ .serving) : ∃ todo p, τ = .boots todo p := by
  cases h with
  | bootFail | bootReset | bootRecount | bootCount | bootDeliver => exact ⟨_, _, rfl⟩
  | failNew => exact absurd (phased nofun) early
  | _ => exact absurd phased early

theorem phase_early (h : Allowed τ v a τ') (phased : τ.phased v.phase)
    (early : (a.apply v).phase ≠ .serving) : v.phase ≠ .serving := by
  cases h with
  | boot =>
    have stopped : v.phase = .stopped := phased
    simp [stopped]
  | serve => exact absurd rfl early
  | _ => exact early

theorem fails_settled {error : List Json} : (c.fails error).recovers = false := by
  simp [Core.recovers, Core.fails, queueable]

theorem halted_move (base : Custody v toks) (inv : Halted j v toks) (at_ : toks[i]? = some (t, τ))
    (h : Allowed τ v a τ') : Halted j (a.apply v) (toks.set i (t, τ')) := by
  have mem : (t, τ) ∈ toks := List.mem_of_getElem? at_
  constructor
  case issued => exact h.grows.issued inv.issued
  case unpending =>
    intro tok hm pending
    rcases mem_set hm with rfl | ⟨k, -, hk⟩
    · rcases allowed_pending h pending with old | ⟨fresh, -⟩
      · exact inv.unpending _ mem old
      · exact fresh inv.issued
    · exact inv.unpending tok (List.mem_of_getElem? hk) pending
  case unqueued =>
    intro queued
    rcases queue_drives h queued with old | drives
    · exact inv.unqueued old
    · exact inv.idle _ mem drives
  case idle =>
    intro tok hm drives
    rcases mem_set hm with rfl | ⟨k, -, hk⟩
    · rcases allowed_drives h drives with old | queued | ⟨c, rfl⟩ | ⟨todo, rfl, hj, recovers⟩
      · exact inv.idle _ mem old
      · exact inv.unqueued queued
      · exact inv.unpending _ mem (allowed_add h).1
      · have held : 0 < (Tok.boots todo .between).holds j := by
          have := List.count_pos_iff.mpr hj
          simp only [Tok.holds]
          omega
        obtain ⟨c, hc⟩ := (base.present mem held).resolve_left id
        have := inv.settled (fun serving => boots_early (base.phased mem) serving) c hc
        rw [recovers c hc] at this
        cases this
    · exact inv.idle tok (List.mem_of_getElem? hk) drives
  case settled =>
    intro early c hc
    have early := phase_early h (base.phased mem) early
    rcases core_cases hc with same | ⟨g, c₀, rfl, hc₀, rfl⟩ | rfl
    · exact inv.settled early c same
    · obtain ⟨todo, p, rfl⟩ := revise_early h (base.phased mem) early
      cases h with
      | bootFail => exact fails_settled
      | bootReset _ status under | bootCount _ status under =>
        have := inv.settled early c₀ hc₀
        simp [Core.recovers, status c₀ hc₀, under c₀ hc₀] at this
      | bootRecount | bootDeliver => exact absurd rfl (inv.idle _ mem)
    · exact absurd (allowed_add h).1 (inv.unpending _ mem)
  case decisions =>
    intro t' d p succ hm
    rcases mem_set hm with eq | ⟨k, -, hk⟩
    · cases eq
      obtain ⟨p', succ', rfl⟩ := allowed_decides h rfl
      exact inv.decisions mem
    · exact inv.decisions (List.mem_of_getElem? hk)

theorem barred_move (base : Custody v toks) (inv : Barred j v toks)
    (at_ : toks[i]? = some (t, τ)) (h : Allowed τ v a τ') :
    Barred j (a.apply v) (toks.set i (t, τ')) := by
  have mem : (t, τ) ∈ toks := List.mem_of_getElem? at_
  refine ⟨halted_move base inv.toHalted at_ h, fun c hc => ?_⟩
  rcases core_cases hc with same | ⟨g, c₀, rfl, hc₀, rfl⟩ | rfl
  · exact inv.barred c same
  · have before := inv.barred c₀ hc₀
    unfold Core.barred at before ⊢
    rcases allowed_override h c₀ with same | ⟨type, st, p, succ, rfl, set⟩ | set
    · rwa [same]
    · obtain ⟨_, _, eq, other⟩ := inv.decisions mem
      cases eq
      simpa [set] using other
    · simp [set]
  · exact absurd (allowed_add h).1 (inv.unpending _ mem)

theorem stops_move (base : Base v toks) (inv : Stops v toks) (at_ : toks[i]? = some (t, τ))
    (parked : ∀ (k : Nat) (tok : Call × Tok), k ≠ i → toks[k]? = some tok → tok.2.parks)
    (h : Allowed τ v a τ') : Stops (a.apply v) (toks.set i (t, τ')) := by
  have mem : (t, τ) ∈ toks := List.mem_of_getElem? at_
  have barred {j : JobId} (before : Barred j v toks) :
      Barred j (a.apply v) (toks.set i (t, τ')) := barred_move base.1 before at_ h
  -- a call that stops a job has it halted, whether or not the guard is set yet
  have halted {j : JobId} {type : String} {st : JobStatus} {p : DecisionPhase} {succ : Successor}
      (own : τ = .decides j (.override type st) p succ) (stop : type ∈ stops) :
      Halted j (a.apply v) (toks.set i (t, τ')) := by
    subst own
    refine halted_move base.1 ?_ at_ h
    by_cases accepted : p = .accepted
    · subst accepted
      exact inv.ready mem stop
    · exact (inv.taken mem accepted stop).toHalted
  have core {j : JobId} {c : Core} (hc : (a.apply v).core j = some c) (stopped : c.stopped) :
      Barred j (a.apply v) (toks.set i (t, τ')) := by
    rcases core_cases hc with same | ⟨g, c₀, rfl, hc₀, rfl⟩ | rfl
    · exact barred (inv.core same stopped)
    · rcases allowed_override h c₀ with same | ⟨type, st, p, succ, own, set⟩ | set
      · rw [Core.stopped, same] at stopped
        exact barred (inv.core hc₀ stopped)
      · have stop : type ∈ stops := by simpa [Core.stopped, set] using stopped
        refine ⟨halted own stop, fun c hc' => ?_⟩
        cases hc.symm.trans hc'
        exact barred_of_stopped stopped
      · simp [Core.stopped, set, stops] at stopped
    · cases h with
      | store | storeSuccessor => cases stopped
  constructor
  case ready =>
    intro t' j type st succ hm stop
    rcases mem_set hm with eq | ⟨k, hk, hm⟩
    · cases eq
      obtain ⟨p, succ', own⟩ := allowed_decides h rfl
      exact halted own stop
    · exact (parked k _ hk hm).elim
  case taken =>
    intro t' j type st p succ hm taken stop
    rcases mem_set hm with eq | ⟨k, -, hm⟩
    · cases eq
      obtain ⟨p', succ', own⟩ := allowed_decides h rfl
      rcases allowed_took h ⟨rfl, rfl, taken⟩ with before | ⟨rfl, -⟩
      · subst own
        exact barred (inv.taken mem before.2.2 stop)
      · refine ⟨halted own stop, fun c hc => ?_⟩
        rcases core_cases hc with same | ⟨g, c₀, eq, -, rfl⟩ | eq
        · simp only [Act.apply, if_true, same, Option.map_some, Option.some.injEq] at hc
          exact hc ▸ barred_of_stopped (by simpa [Core.stopped, Decision.reserve] using stop)
        · cases eq
          exact barred_of_stopped (by simpa [Core.stopped, Decision.reserve] using stop)
        · cases eq
    · exact barred (inv.taken (List.mem_of_getElem? hm) taken stop)
  case core => exact core
  case row =>
    intro j c hr stopped
    rcases apply_row hr with old | hc
    · exact barred (inv.row old stopped)
    · exact barred (inv.core hc stopped)

theorem first_drives (t : Call) (w : World) (j : JobId) : ¬ (first t w).drives j :=
  fun drives => (first_took t w j).2 (executes_of_drives drives)

theorem first_pending (t : Call) (w : World) (j : JobId) : ¬ (first t w).pending j :=
  (first_plain t w).pending j

/-- The guards turn away every later decision on a barred job. -/
theorem barred_refuses {w : World} {d : Decision} {p : DecisionPhase} {succ : Successor}
    (inv : Barred j w.view toks) : first t w ≠ .decides j d p succ := by
  intro eq
  have refuted {job : Job} (hj : w.job? j = some job) (unset : job.overrideType.isSome = false) :
      False := by
    have barred := inv.barred job.core (by simp [hj])
    simp only [Core.barred] at barred
    obtain ⟨type, set, -⟩ := (Option.any_eq_true _ _).mp barred
    have set : job.overrideType = some type := set
    rw [set] at unset
    cases unset
  cases t with
  | override i r =>
    rcases first_override i r w with new | new | ⟨job, hj, reserves, new⟩ <;>
      cases new.symm.trans eq
    simp only [OverrideRequest.reserves, decide_eq_true_eq] at reserves
    exact refuted hj (open_of_override reserves.1).2.2.2
  | review i r device =>
    rcases first_review i r device w with new | new | ⟨record, -, -, new⟩ |
      ⟨-, job, hj, ⟨reserves, new⟩ | ⟨-, -, new⟩⟩ <;> cases new.symm.trans eq
    simp only [ReviewRequest.reserves, decide_eq_true_eq] at reserves
    exact refuted hj (open_of_review reserves.1).2
  | startup | worker | autoAccept | submit | checkPermission | setHub | configure => cases eq

theorem barred_start {w : World} (inv : Barred j w.view toks) (t : Call) :
    Barred j w.view (toks ++ [(t, first t w)]) := by
  have last {tok : Call × Tok} (h : tok ∈ toks ++ [(t, first t w)]) :
      tok ∈ toks ∨ tok = (t, first t w) :=
    (List.mem_append.mp h).imp id List.mem_singleton.mp
  refine ⟨⟨inv.issued, fun tok hm => ?_, inv.unqueued, fun tok hm => ?_, inv.settled, fun hm => ?_⟩,
    inv.barred⟩
  · rcases last hm with hm | rfl
    · exact inv.unpending tok hm
    · exact first_pending t w j
  · rcases last hm with hm | rfl
    · exact inv.idle tok hm
    · exact first_drives t w j
  · rcases last hm with hm | eq
    · exact inv.decisions hm
    · exact absurd (Prod.mk.inj eq).2.symm (barred_refuses inv)

theorem retire_drives (τ : Tok) (j : JobId) : ¬ τ.retire.drives j :=
  fun drives => (retire_deciding τ j).2 (executes_of_drives drives)

theorem halted_finish (inv : Halted j v toks) (t : Call) (τ : Tok) :
    Halted j v (toks.set i (t, τ.retire)) := by
  have spent := retire_spent τ
  have old {tok : Call × Tok} (h : tok ∈ toks.set i (t, τ.retire)) :
      tok ∈ toks ∨ tok = (t, τ.retire) := by
    rcases mem_set h with h | ⟨k, -, h⟩
    · exact .inr h
    · exact .inl (List.mem_of_getElem? h)
  refine ⟨inv.issued, fun tok hm => ?_, inv.unqueued, fun tok hm => ?_, inv.settled, fun hm => ?_⟩
  · rcases old hm with hm | rfl
    · exact inv.unpending tok hm
    · exact spent.plain.pending j
  · rcases old hm with hm | rfl
    · exact inv.idle tok hm
    · exact retire_drives τ j
  · rcases old hm with hm | eq
    · exact inv.decisions hm
    · exact absurd (Prod.mk.inj eq).2.symm (spent.decides j _ _ _)

theorem barred_finish (inv : Barred j v toks) (t : Call) (τ : Tok) :
    Barred j v (toks.set i (t, τ.retire)) :=
  ⟨halted_finish inv.toHalted t τ, inv.barred⟩

theorem stops_finish (inv : Stops v toks) (t : Call) (τ : Tok) :
    Stops v (toks.set i (t, τ.retire)) := by
  have old {t' : Call} {j : JobId} {d : Decision} {p : DecisionPhase} {succ : Successor}
      (hm : (t', .decides j d p succ) ∈ toks.set i (t, τ.retire)) :
      (t', .decides j d p succ) ∈ toks := by
    rcases mem_set hm with eq | ⟨k, -, hk⟩
    · exact absurd (Prod.mk.inj eq).2.symm ((retire_spent τ).decides j _ _ _)
    · exact List.mem_of_getElem? hk
  exact ⟨fun hm stop => halted_finish (inv.ready (old hm) stop) t τ,
    fun hm taken stop => barred_finish (inv.taken (old hm) taken stop) t τ,
    fun hc stopped => barred_finish (inv.core hc stopped) t τ,
    fun hr stopped => barred_finish (inv.row hr stopped) t τ⟩

end Halted

section Spared

/-- No stored job that has an override other than modify is one that the recovery pass would
queue or deliver. -/
def World.spared (w : World) : Bool :=
  w.db.all fun db => db.jobs.entries.all fun e => !(e.2.core.barred && e.2.core.recovers)

/-- Every stop that the guards let through finds the job at rest, and every crash finds the
stored jobs spared. -/
def survivable {cfg : Settings} (c : Run cfg) : Label (orchestrator cfg) → Bool
  | .start (.override j r) => (c.state.job? j).all fun job =>
      r.overrideType ∉ stops || !r.reserves job || atRest c j job
  | .crash => c.state.spared
  | .start _ | .answer _ _ _ | .work _ => true

variable {cfg : Settings} {c : Run cfg} {toks : Toks} {j : JobId} {job : Job}

theorem row_spared {w : World} {core : Core} (spared : w.spared = true)
    (hr : w.view.row j = some core) (barred : core.barred) : core.recovers = false := by
  rw [view_row] at hr
  obtain ⟨row, found, rfl⟩ := Option.map_eq_some_iff.mp hr
  obtain ⟨db, hdb, hj⟩ := Option.bind_eq_some_iff.mp found
  simp only [World.spared, hdb, Option.all_some, List.all_eq_true] at spared
  have := spared (j, row) (Dict.get?_eq_some_iff.mp hj)
  simpa [barred] using this

theorem barred_restart {w : World} (spared : w.spared = true) (inv : Barred j w.view toks)
    (row : ∀ c, w.view.row j = some c → c.barred) : Barred j w.restart.view [] where
  issued := inv.issued
  unpending := by simp
  unqueued := nofun
  idle := by simp
  settled _ c hc := row_spared spared (restart_core hc) (row c (restart_core hc))
  decisions hm := by cases hm
  barred c hc := row c (restart_core hc)

theorem rest_halts {r : OverrideRequest} (tracks : (plan cfg).Tracks c toks)
    (base : Base c.state.view toks) (idle : c.running = none)
    (parked : ∀ tok ∈ toks, tok.2.parks) (serving : c.state.phase = .serving)
    (found : c.state.job? j = some job) (reserves : r.reserves job = true)
    (rest : atRest c j job = true) (stop : r.overrideType ∈ stops) :
    Halted j c.state.view (toks ++ [(.override j r, first (.override j r) c.state)]) := by
  have here : c.state.view.core j = some job.core := by simp [found]
  have free := atRest_load tracks base.1 idle parked serving found rest
  have last {tok : Call × Tok}
      (h : tok ∈ toks ++ [(.override j r, first (.override j r) c.state)]) :
      tok ∈ toks ∨ tok = (.override j r, first (.override j r) c.state) :=
    (List.mem_append.mp h).imp id List.mem_singleton.mp
  simp only [OverrideRequest.reserves, decide_eq_true_eq] at reserves
  obtain ⟨-, -, unreviewed, unoverridden⟩ := open_of_override reserves.1
  constructor
  case issued => exact base.1.issued here
  case unpending =>
    intro tok hm pending
    rcases last hm with hm | rfl
    · rw [base.1.pending hm pending] at here
      cases here
    · exact first_pending (.override j r) c.state j pending
  case unqueued =>
    intro queued
    have := List.count_pos_iff.mpr queued
    simp only [load] at free
    omega
  case idle =>
    intro tok hm drives
    rcases last hm with hm | rfl
    · have ex : Executing c.state.view toks j := .inr ⟨tok, hm, executes_of_drives drives⟩
      have := executing_load ex
      omega
    · exact first_drives (.override j r) c.state j drives
  case settled => exact fun early => absurd serving early
  case decisions =>
    intro t' d p succ hm
    rcases last hm with hm | eq
    · have taken : p ≠ .accepted := by
        rintro rfl
        exact parked _ hm
      have guards := base.2.guarded hm ⟨rfl, rfl, taken⟩ here
      cases d with
      | override =>
        have set : job.overrideType.isSome = true := guards
        rw [unoverridden] at set
        cases set
      | review => exact absurd guards unreviewed
    · have new := (Prod.mk.inj eq).2
      rcases first_override j r c.state with eq | eq | ⟨_, -, -, eq⟩ <;> cases new.trans eq
      exact ⟨r.overrideType, _, rfl, stop_bars stop⟩

theorem stops_start {t : Call} (tracks : (plan cfg).Tracks c toks)
    (base : Base c.state.view toks) (inv : Stops c.state.view toks) (idle : c.running = none)
    (parked : ∀ tok ∈ toks, tok.2.parks) (may : mayStart c.state t)
    (met : survivable c (.start t) = true) :
    Stops c.state.view (toks ++ [(t, first t c.state)]) := by
  have last {tok : Call × Tok} (h : tok ∈ toks ++ [(t, first t c.state)]) :
      tok ∈ toks ∨ tok = (t, first t c.state) :=
    (List.mem_append.mp h).imp id List.mem_singleton.mp
  constructor
  case ready =>
    intro t' j type st succ hm stop
    rcases last hm with hm | eq
    · exact (parked _ hm).elim
    · have new := (Prod.mk.inj eq).2
      cases t with
      | override i r =>
        rcases first_override i r c.state with eq | eq | ⟨job, found, reserves, eq⟩ <;>
          cases new.trans eq
        have rest : atRest c j job = true := by
          simpa [survivable, found, reserves, stop] using met
        exact rest_halts tracks base idle parked may found reserves rest stop
      | review i r device =>
        rcases first_review i r device c.state with eq | eq | ⟨_, -, -, eq⟩ |
          ⟨-, _, -, ⟨-, eq⟩ | ⟨-, -, eq⟩⟩ <;> cases new.trans eq
      | startup | worker | autoAccept | submit | checkPermission | setHub | configure => cases new
  case taken =>
    intro t' j type st p succ hm taken stop
    rcases last hm with hm | eq
    · exact barred_start (inv.taken hm taken stop) t
    · exact absurd ⟨rfl, rfl, taken⟩ ((Prod.mk.inj eq).2 ▸ (first_took t c.state j).1 _)
  case core => exact fun hc stopped => barred_start (inv.core hc stopped) t
  case row => exact fun hr stopped => barred_start (inv.row hr stopped) t

theorem stops_restart {w : World} (spared : w.spared = true) (inv : Stops w.view toks) :
    Stops w.restart.view [] := by
  have row {j : JobId} {core : Core} (hr : w.view.row j = some core) (stopped : core.stopped) :
      Barred j w.restart.view [] := by
    refine barred_restart spared (inv.row hr stopped) fun other hother => ?_
    cases hr.symm.trans hother
    exact barred_of_stopped stopped
  constructor
  case ready => exact fun hm => by cases hm
  case taken => exact fun hm => by cases hm
  case core => exact fun hc stopped => row (restart_core hc) stopped
  case row => exact fun hr stopped => row (restart_row w _ ▸ hr) stopped

theorem stopping (cfg : Settings) : Invariant cfg (Meets survivable) Base Stops where
  start tracks base inv parked idle met may := stops_start tracks base inv idle parked may met
  move base inv at_ parked _ h := stops_move base inv at_ parked h
  finish {_ _ _ t τ _} _ inv _ _ _ := stops_finish inv t τ
  crash _ _ inv met := stops_restart met inv

theorem stops_initial (persistent : Bool) : Stops (World.initial persistent).view [] where
  ready hm := by cases hm
  taken hm := by cases hm
  core hc := by cases hc
  row hr := absurd hr initial_row

/-- The job is out of reach, in memory and on disk, and nothing has moved it since. -/
structure Spared (j : JobId) (past : List Obs) (v : View) (toks : Toks) : Prop
    extends Barred j v toks where
  row : ∀ c, v.row j = some c → c.barred
  trace : ∃ obs, v.trace = past ++ obs ∧ ∀ o ∈ obs, ¬ o.Moves j

theorem spared_move {v : View} {i : Nat} {t : Call} {τ τ' : Tok} {a : Act} {past : List Obs}
    (base : Base v toks) (inv : Spared j past v toks) (at_ : toks[i]? = some (t, τ))
    (h : Allowed τ v a τ') : Spared j past (a.apply v) (toks.set i (t, τ')) := by
  have mem : (t, τ) ∈ toks := List.mem_of_getElem? at_
  obtain ⟨obs, grown, still⟩ := inv.trace
  refine ⟨barred_move base.1 inv.toBarred at_ h, fun c hr => ?_, ?_⟩
  · rcases apply_row hr with old | hc
    · exact inv.row c old
    · exact inv.barred c hc
  · obtain ⟨more, eq, moves⟩ :=
      allowed_moves h j fun k e permit eq => base.1.dispatching (eq ▸ mem)
    refine ⟨obs ++ more, by rw [eq, grown, List.append_assoc], fun o ho => ?_⟩
    rcases List.mem_append.mp ho with old | new
    · exact still o old
    · intro moved
      rcases moves o new moved with ⟨stage, rfl, open_⟩ | ⟨d, succ, rfl, delivers⟩ |
        ⟨todo, p, rfl, hj, received⟩
      · exact inv.idle _ mem ⟨rfl, open_⟩
      · obtain ⟨type, st, rfl, other⟩ := inv.decisions mem
        exact overrideEnd_delivered other delivers
      · have held : 0 < (Tok.boots todo p).holds j := by
          have := List.count_pos_iff.mpr hj
          simp only [Tok.holds]
          omega
        obtain ⟨core, hc⟩ := (base.1.present mem held).resolve_left id
        have settled := inv.settled
          (fun serving => boots_early (base.1.phased mem) serving) core hc
        simp [Core.recovers, received core hc] at settled

theorem sparing (cfg : Settings) (j : JobId) (past : List Obs) :
    Invariant cfg (Meets survivable) Base (Spared j past) where
  start {_ _ t} _ _ inv _ _ _ _ := ⟨barred_start inv.toBarred t, inv.row, inv.trace⟩
  move base inv at_ _ _ h := spared_move base inv at_ h
  finish {_ _ _ t τ _} _ inv _ _ _ := ⟨barred_finish inv.toBarred t τ, inv.row, inv.trace⟩
  crash {c _} _ _ inv met :=
    ⟨barred_restart met inv.toBarred inv.row,
      fun core hr => inv.row core (restart_row c.state j ▸ hr), inv.trace⟩

/-- The job is not dispatched, answered, proposed or delivered between two configurations, and
no model is called for it. -/
def Rests {cfg : Settings} (c c' : Run cfg) (j : JobId) : Prop :=
  ∃ obs, c'.state.trace = c.state.trace ++ obs ∧ ∀ o ∈ obs, ¬ o.Moves j

/-- A job whose row says that it has been stopped is left alone for good. -/
theorem override_survives {persistent : Bool} {c c' : Run cfg}
    (run : Reach (orchestrator cfg) (Meets survivable) (.boot _ (World.initial persistent)) c)
    (onward : Reach (orchestrator cfg) (Meets survivable) c c')
    (found : c.state.row? j = some job) (stopped : job.core.stopped = true) : Rests c c' j := by
  obtain ⟨toks, tracks, known, inv⟩ := Invariant.reach (base cfg) (stopping cfg)
    (Plan.tracks_boot _) (base_initial persistent) (stops_initial persistent) run
  have row : c.state.view.row j = some job.core := by simp [view_row, found]
  have here : Spared j c.state.trace c.state.view toks := by
    refine ⟨inv.row row stopped, fun core hr => ?_, [], by simp, by simp⟩
    cases row.symm.trans hr
    exact barred_of_stopped stopped
  obtain ⟨toks', -, -, spared⟩ := Invariant.reach (base cfg) (sparing cfg j c.state.trace)
    tracks known here onward
  exact spared.trace

def stopsRow (j : JobId) {cfg : Settings} (c : Run cfg) : Bool :=
  (c.state.row? j).any (·.core.stopped)

theorem override_survives_witness : ∃ (c c' : Run plain) (job : Job),
    c.state.row? (uuid 1) = some job ∧ job.core.stopped = true ∧ Rests c c' (uuid 1) := by
  obtain ⟨c, c', run, onward, seen⟩ := reached_on (guards_meets survivable) (fresh plain true)
    [.start .startup, .finish 0, .start (.submit (request (some "k"))), .finish 1,
      .start (.worker (uuid 1)), .finish 2,
      .start (.override (uuid 1) ⟨"cancel", "", "", "phone", none⟩)]
    [.crash, .start .startup, .finish 0] (fun c _ => stopsRow (uuid 1) c) (by decide +kernel)
  obtain ⟨job, hj, stopped⟩ := (Option.any_eq_true _ _).mp seen
  exact ⟨c, c', job, hj, stopped, override_survives run onward hj stopped⟩

def dispatches (j : JobId) : Obs → Bool
  | .attempted e => decide (e.eventType = "job.dispatched" ∧ e.jobId = some j)
  | _ => false

/-- A stop that a crash interrupts is forgotten: the next lifetime dispatches the job. -/
theorem stop_forgotten : ∃ (c c' : Run plain) (job : Job),
    Reach (orchestrator plain) (Anyhow plain) (.boot _ (World.initial true)) c ∧
      Reach (orchestrator plain) (Anyhow plain) c c' ∧
      c.state.row? (uuid 1) = some job ∧ job.core.stopped = true ∧ ¬ Rests c c' (uuid 1) := by
  obtain ⟨c, c', run, onward, seen⟩ := reached_on (guards_anyhow plain) (fresh plain true)
    [.start .startup, .finish 0, .start (.submit (request (some "k"))), .finish 1,
      .start (.override (uuid 1) ⟨"cancel", "", "", "phone", none⟩)]
    [.crash, .start .startup, .finish 0, .start (.worker (uuid 1)), .finish 1]
    (fun c c' => stopsRow (uuid 1) c &&
      (c'.state.trace.drop c.state.trace.length).any (dispatches (uuid 1))) (by decide +kernel)
  obtain ⟨before, after⟩ := Bool.and_eq_true_iff.mp seen
  obtain ⟨job, hj, stopped⟩ := (Option.any_eq_true _ _).mp before
  refine ⟨c, c', job, run, onward, hj, stopped, ?_⟩
  rintro ⟨obs, grown, still⟩
  rw [grown, List.drop_left] at after
  obtain ⟨o, ho, moved⟩ := List.any_eq_true.mp after
  refine still o ho ?_
  cases o with
  | attempted e =>
    obtain ⟨type, about⟩ := of_decide_eq_true moved
    exact ⟨by simp [type, onwardTypes], about⟩
  | _ => cases moved

end Spared

end Drnt.Orchestrator
