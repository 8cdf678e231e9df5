import Drnt.Orchestrator.Trial

/-! Results under a review gate: who delivers a job whose dispatch was authorised with a hold. -/
namespace Drnt.Orchestrator

open Lib Lib.Coop Trial

section Held

/-- The check returned a delivery hold, or held the action until its result is accepted. -/
def Permit.Held (p : Permit) : Prop :=
  p.deliveryHold = true ∨ p.result = "held" ∧ p.holdType = some "on_accept"

instance (p : Permit) : Decidable p.Held := inferInstanceAs (Decidable (_ ∨ _))

/-- The permits under which the job has been dispatched, in order. -/
def permits (trace : List Obs) (j : JobId) : List Permit :=
  trace.filterMap fun
    | .authorised e permit => if e.jobId = some j then some permit else none
    | _ => none

/-- The last dispatch of the job was authorised with a hold. -/
def Held (trace : List Obs) (j : JobId) : Prop := ∃ p ∈ (permits trace j).getLast?, p.Held

instance (trace : List Obs) (j : JobId) : Decidable (Held trace j) :=
  match h : (permits trace j).getLast? with
  | none => .isFalse fun ⟨p, mem, _⟩ => by rw [h] at mem; cases mem
  | some p =>
    if held : p.Held then .isTrue ⟨p, h, held⟩
    else .isFalse fun ⟨q, mem, hq⟩ => by rw [h] at mem; cases mem; exact held hq

structure Gate (v : View) (toks : Toks) : Prop where
  dispatched : ∀ {t j e permit}, (t, .works j (.dispatched e permit)) ∈ toks →
    (permits v.trace j).getLast? = some permit
  delivering : ∀ {t j}, (t, .works j .delivering) ∈ toks → ¬ Held v.trace j
  waiting : ∀ {t todo p j c}, (t, .boots todo p) ∈ toks → j ∈ todo → v.core j = some c →
    c.status = .responseReceived → ¬ Held v.trace j
  recovering : ∀ {t todo j}, (t, .boots todo (.delivering j)) ∈ toks → ¬ Held v.trace j
  asleep : ∀ {j c}, v.phase = .stopped → v.core j = some c → c.status = .responseReceived →
    ¬ Held v.trace j

variable {v : View} {toks : Toks} {i : Nat} {t : Call} {τ τ' : Tok} {a : Act} {j : JobId}

/-- A permit that is held has a reason to hold. -/
theorem holds_of_held {p : Permit} (h : p.Held) : p.holds := by
  unfold Permit.holds holdReason
  rcases h with hold | ⟨-, accept⟩
  · simp [hold]
  · split <;> rfl

theorem permits_append (trace : List Obs) (o : Obs) (j : JobId) :
    permits (trace ++ [o]) j = permits trace j ++ permits [o] j := by
  simp only [permits, List.filterMap_append]

theorem permits_harmless {o : Obs} (h : o.Harmless) : permits [o] j = [] := by
  cases o with
  | authorised e permit => exact h.elim
  | _ => rfl

/-- Only the pipeline authorises a dispatch, and it goes on under the permit. -/
theorem allowed_permits (h : Allowed τ v a τ') (j : JobId) :
    permits (a.apply v).trace j = permits v.trace j ∨
      ∃ e permit, τ = .works j .opened ∧ τ' = .works j (.dispatched e permit) ∧
        (permits (a.apply v).trace j).getLast? = some permit := by
  have other {o : Obs} (h : permits [o] j = []) : permits (v.trace ++ [o]) j = permits v.trace j := by
    rw [permits_append, h, List.append_nil]
  cases h with
  | authorise checked ref about =>
    rename_i k e permit check
    by_cases hk : k = j
    · subst hk
      refine .inr ⟨e, permit, rfl, rfl, ?_⟩
      change (permits (v.trace ++ [_]) k).getLast? = _
      rw [permits_append]
      simp [permits, about.2]
    · exact .inl (other (by simp [permits, about.2, hk]))
  | note harmless => exact .inl (other (permits_harmless harmless))
  | announce | announceReview | announceDefer | endEvent | abort | dispatch | call | receive
  | proposeEvent | deliverEvent | failEvent | bootFailEvent | bootDeliverEvent | bootDrop | bootScan
  | acceptEvent | enqueueNew | enqueueSuccessor | bootEnqueue =>
    exact .inl (other rfl)
  | _ => exact .inl rfl

theorem held_of_permits {trace trace' : List Obs} (h : permits trace' j = permits trace j)
    (held : Held trace' j) : Held trace j := by
  unfold Held at *
  rw [← h]
  exact held

/-- Jobs are made and moved by requests, by the pipeline and by the startup only. -/
theorem allowed_core (h : Allowed τ v a τ') (phased : τ.phased v.phase) :
    v.phase = .serving ∨ (∃ todo p, τ = .boots todo p ∧ p ≠ .rising) ∨
      (a.apply v).core = v.core := by
  cases h with
  | store ready =>
    rcases ready with rfl | ⟨-, rfl⟩ <;> exact .inl (phased (by simp))
  | failNew => exact .inl (phased (by simp))
  | reserve | reserveAgain | settle | storeSuccessor | failSuccessor | classify | progress
  | propose | deliver | fail | autoAccept => exact .inl phased
  | bootFail | bootReset | bootRecount | bootCount | bootDeliver =>
    exact .inr (.inl ⟨_, _, rfl, nofun⟩)
  | _ => exact .inr (.inr rfl)

theorem allowed_boots {todo : List JobId} {p : BootPhase} (h : Allowed τ v a τ')
    (ht : τ' = .boots todo p) : ∃ todo p, τ = .boots todo p := by
  subst ht
  cases h <;> exact ⟨_, _, rfl⟩

/-- The startup leaves alone the jobs that it has still to look at. -/
theorem boots_core (h : Allowed τ v a τ') {todo todo' : List JobId} {p p' : BootPhase}
    (ht : τ = .boots todo p) (ht' : τ' = .boots todo' p') (mem : j ∈ todo')
    (single : τ.holds j ≤ 1) : j ∈ todo ∧ (a.apply v).core j = v.core j := by
  have apart {k : JobId} (other : j ≠ k) (g : Core → Core) :
      ((Act.revise k g).apply v).core j = v.core j := by simp [Act.apply, other]
  have kept {k : JobId} {todo : List JobId} (mem : j ∈ todo.filter (· ≠ k)) :
      j ∈ todo ∧ j ≠ k := by simpa using mem
  have held {todo : List JobId} {k : JobId} {p : BootPhase} (mem : j ∈ todo)
      (hp : p.holds j = if k = j then 1 else 0) (single : todo.count j + p.holds j ≤ 1) :
      j ≠ k := by
    rintro rfl
    have := List.count_pos_iff.mpr mem
    simp only [if_true] at hp
    omega
  subst ht
  cases h with
  | bootFailEvent | bootDeliverEvent | bootScan =>
    cases ht'
    exact ⟨(kept mem).1, rfl⟩
  | bootReset | bootCount =>
    cases ht'
    exact ⟨(kept mem).1, apart (kept mem).2 _⟩
  | bootFail | bootRecount | bootDeliver =>
    cases ht'
    exact ⟨mem, apart (held mem rfl single) _⟩
  | serve => cases ht'
  | quiet | persist | note | mint | boot | bootEnqueue | bootDrop | bootKept =>
    cases ht'
    exact ⟨mem, rfl⟩

theorem gate_move (base : Custody v toks) (inv : Gate v toks)
    (at_ : toks[i]? = some (t, τ)) (h : Allowed τ v a τ') :
    Gate (a.apply v) (toks.set i (t, τ')) := by
  have mem : (t, τ) ∈ toks := List.mem_of_getElem? at_
  have phased := base.phased mem
  -- a dispatch is authorised while the process serves, by the run that has the job in hand
  have early (early : v.phase ≠ .serving) (j : JobId) :
      permits (a.apply v).trace j = permits v.trace j := by
    rcases allowed_permits h j with same | ⟨e, permit, rfl, -, -⟩
    · exact same
    · exact absurd phased early
  have elsewhere {k : Nat} {tok : Call × Tok} {j : JobId} (hk : k ≠ i) (at' : toks[k]? = some tok)
      (held : 0 < tok.2.holds j) : permits (a.apply v).trace j = permits v.trace j := by
    rcases allowed_permits h j with same | ⟨e, permit, rfl, -, -⟩
    · exact same
    · exact (base.exclusive hk at' at_ held (by simp [Tok.holds])).elim
  constructor
  · intro t' j e permit hm
    rcases mem_set hm with eq | ⟨k, hk, hm⟩
    · cases eq
      rcases allowed_permits h j with same | ⟨e', permit', -, eq, last⟩
      · rw [same]
        cases h with
        | authorise _ _ about =>
          rw [← same]
          change (permits (v.trace ++ [_]) j).getLast? = _
          rw [permits_append]
          simp [permits, about.2]
        | dispatch | call | receive | progress | quiet | persist | note | mint =>
          exact inv.dispatched mem
      · cases eq; exact last
    · rw [elsewhere hk hm (by simp [Tok.holds])]
      exact inv.dispatched (List.mem_of_getElem? hm)
  · intro t' j hm held
    rcases mem_set hm with eq | ⟨k, hk, hm⟩
    · cases eq
      rcases allowed_permits h j with same | ⟨e', permit', -, eq, -⟩
      · have before := held_of_permits same held
        cases h with
        | deliverEvent free =>
          obtain ⟨p, last, hp⟩ := before
          rw [inv.dispatched mem] at last
          cases last
          exact free (holds_of_held hp)
        | quiet | persist | note | mint => exact inv.delivering mem before
      · cases eq
    · exact inv.delivering (List.mem_of_getElem? hm)
        (held_of_permits (elsewhere hk hm (by simp [Tok.holds])) held)
  · intro t' todo p j c hm hj hc received held
    rcases mem_set hm with eq | ⟨k, hk, hm⟩
    · cases eq
      obtain ⟨todo₀, p₀, rfl⟩ := allowed_boots h rfl
      have single : (Tok.boots todo₀ p₀).holds j ≤ 1 := by
        have := base.load_le at_ j
        simp only at this
        omega
      obtain ⟨hj₀, same⟩ := boots_core h rfl rfl hj single
      exact inv.waiting mem hj₀ (same ▸ hc) received
        (held_of_permits (early (boots_early phased) j) held)
    · have phased' := base.phased (List.mem_of_getElem? hm)
      have unchanged : (a.apply v).core = v.core := by
        rcases allowed_core h phased with serving | ⟨_, _, rfl, -⟩ | same
        · exact absurd serving (boots_early phased')
        · exact absurd (base.booting_other hk hm at_ rfl) (by simp [Tok.booting])
        · exact same
      exact inv.waiting (List.mem_of_getElem? hm) hj (unchanged ▸ hc) received
        (held_of_permits (early (boots_early phased') j) held)
  · intro t' todo j hm held
    rcases mem_set hm with eq | ⟨k, hk, hm⟩
    · cases eq
      obtain ⟨todo₀, p₀, rfl⟩ := allowed_boots h rfl
      have before := held_of_permits (early (boots_early phased) j) held
      cases h with
      | bootDeliverEvent hj _ status =>
        have pos : 0 < (Tok.boots todo₀ .between).holds j := by
          have := List.count_pos_iff.mpr hj
          simp only [Tok.holds]
          omega
        obtain ⟨c, hc⟩ := (base.present mem pos).resolve_left id
        exact inv.waiting mem hj hc (status c hc) before
      | quiet | persist | note | mint => exact inv.recovering mem before
    · have phased' := base.phased (List.mem_of_getElem? hm)
      exact inv.recovering (List.mem_of_getElem? hm)
        (held_of_permits (early (boots_early phased') j) held)
  · intro j c stop hc received held
    have stopped : v.phase = .stopped := by
      cases h with
      | boot | serve => cases stop
      | _ => exact stop
    have unchanged : (a.apply v).core = v.core := by
      rcases allowed_core h phased with serving | ⟨_, p, rfl, up⟩ | same
      · rw [serving] at stopped; cases stopped
      · cases p with
        | rising => exact absurd rfl up
        | between | failing | resetting | queueing | delivering | kept =>
          exact absurd (stopped.symm.trans phased) (by simp)
      · exact same
    have quiet : v.phase ≠ .serving := by rw [stopped]; simp
    exact inv.asleep stopped (unchanged ▸ hc) received (held_of_permits (early quiet j) held)

theorem gate_start {w : World} (inv : Gate w.view toks)
    (may : mayStart w t) : Gate w.view (toks ++ [(t, first t w)]) := by
  have last {tok : Call × Tok} (h : tok ∈ toks ++ [(t, first t w)]) :
      tok ∈ toks ∨ tok = (t, first t w) :=
    (List.mem_append.mp h).imp id List.mem_singleton.mp
  have plain := first_plain t w
  constructor
  · intro t' j e permit hm
    rcases last hm with hm | eq
    · exact inv.dispatched hm
    · exact absurd (Prod.mk.inj eq).2.symm (plain.works j _)
  · intro t' j hm
    rcases last hm with hm | eq
    · exact inv.delivering hm
    · exact absurd (Prod.mk.inj eq).2.symm (plain.works j _)
  · intro t' todo p j c hm hj hc received
    rcases last hm with hm | eq
    · exact inv.waiting hm hj hc received
    · by_cases other : t = .startup
      · subst other
        exact inv.asleep may hc received
      · have := first_unwritten w other
        rw [← (Prod.mk.inj eq).2] at this
        cases this
  · intro t' todo j hm
    rcases last hm with hm | eq
    · exact inv.recovering hm
    · by_cases other : t = .startup
      · subst other
        cases (Prod.mk.inj eq).2
      · have := first_unwritten w other
        rw [← (Prod.mk.inj eq).2] at this
        cases this
  · exact inv.asleep

/-- A finished call holds neither a permit nor a list of jobs. -/
theorem gate_finish (inv : Gate v toks) (t : Call) (τ : Tok) :
    Gate v (toks.set i (t, τ.retire)) := by
  have old {t' : Call} {τ₁ : Tok} (h : (t', τ₁) ∈ toks.set i (t, τ.retire)) :
      (t', τ₁) ∈ toks ∨ τ₁ = τ.retire := by
    rcases mem_set h with eq | ⟨k, -, hk⟩
    · cases eq; exact .inr rfl
    · exact .inl (List.mem_of_getElem? hk)
  have plain := (retire_spent τ).plain
  have boots (todo : List JobId) (p : BootPhase) : Tok.boots todo p ≠ τ.retire := by
    intro eq
    have := (retire_spent τ).booting
    rw [← eq] at this
    cases this
  constructor
  · intro t' j e permit hm
    exact (old hm).elim inv.dispatched fun eq => absurd eq.symm (plain.works j _)
  · intro t' j hm
    exact (old hm).elim inv.delivering fun eq => absurd eq.symm (plain.works j _)
  · intro t' todo p j c hm
    exact (old hm).elim inv.waiting fun eq => absurd eq (boots todo p)
  · intro t' todo j hm
    exact (old hm).elim inv.recovering fun eq => absurd eq (boots todo _)
  · exact inv.asleep

/-- The process crashes only when no stored response is under a hold. -/
def Released (cfg : Settings) (c : Run cfg) : Label (orchestrator cfg) → Prop
  | .crash => ∀ db j row, c.state.db = some db → db.jobs.get? j = some row →
      row.status = .responseReceived → ¬ Held c.state.trace j
  | .start _ | .answer _ _ _ | .work _ => True

theorem gate_restart {cfg : Settings} {c : Run cfg} (released : Released cfg c .crash) :
    Gate c.state.restart.view [] where
  dispatched hm := by cases hm
  delivering hm := by cases hm
  waiting hm := by cases hm
  recovering hm := by cases hm
  asleep {j core} _ hc received := by
    have row := restart_core hc
    simp only [World.view, Option.map_eq_some_iff, Option.bind_eq_some_iff] at row
    obtain ⟨job, ⟨db, hdb, hj⟩, rfl⟩ := row
    exact released db j job hdb hj received

theorem gate (cfg : Settings) : Invariant cfg (Released cfg) Base Gate where
  start _ _ inv _ _ _ may := gate_start inv may
  move base inv at_ _ _ h := gate_move base.1 inv at_ h
  finish {_ _ _ t τ _} _ inv _ _ _ := gate_finish inv t τ
  crash _ _ _ released := gate_restart released

theorem gate_initial (persistent : Bool) : Gate (World.initial persistent).view [] where
  dispatched hm := by cases hm
  delivering hm := by cases hm
  waiting hm := by cases hm
  recovering hm := by cases hm
  asleep _ hc := by cases hc

end Held

section Delivery

/-- The job becomes delivered, or its delivery is announced. -/
def Delivers (w w' : World) (j : JobId) : Prop :=
  (∃ job', w'.job? j = some job' ∧ job'.status = .delivered ∧
      ∀ job, w.job? j = some job → job.status ≠ .delivered) ∨
    ∃ e, Lifecycle "job.delivered" j e ∧ w'.trace = w.trace ++ [.attempted e]

/-- A human decision that delivers the job. -/
def Call.deliversByHand (j : JobId) : Call → Prop
  | .override i r => i = j ∧ r.overrideType = "modify"
  | .review i r _ => i = j ∧ r.decision ∈ ["approve", "edit"]
  | _ => False

/-- A job under a hold is delivered by a call that a human made. -/
def HeldBack {cfg : Settings} (c : Run cfg) (l : Label (orchestrator cfg)) (c' : Run cfg) : Prop :=
  ∀ j, Held c.state.trace j → Delivers c.state c'.state j →
    ∃ i t p, l = .work i ∧ c.threads[i]? = some ⟨t, p⟩ ∧ t.deliversByHand j

theorem unmoved_delivers {w w' : World} {j : JobId} (core : w'.view.core j = w.view.core j)
    (trace : w'.trace = w.trace) : ¬ Delivers w w' j := by
  rintro (⟨job', hj', done, before⟩ | ⟨e, -, grown⟩)
  · simp only [view_core, hj', Option.map_some] at core
    obtain ⟨job, hj, same⟩ := Option.map_eq_some_iff.mp core.symm
    have : job.status = job'.status := congrArg Core.status same
    exact before job hj (this.trans done)
  · rw [trace] at grown
    simpa using congrArg List.length grown

/-- A human decision that ends in a delivery. -/
theorem delivers_decision {d : Decision} {t : Call} {j : JobId} (fits : d.fits t j)
    (h : d.endStatus = .delivered) : t.deliversByHand j := by
  cases d with
  | override type st =>
    obtain ⟨r, rfl, rfl⟩ := fits
    refine ⟨rfl, ?_⟩
    by_contra other
    simp only [Decision.endStatus, Decision.overrideEnd, if_neg other] at h
    split at h <;> cases h
  | review p =>
    obtain ⟨terminal, r, device, rfl, rfl⟩ := fits
    refine ⟨rfl, ?_⟩
    change Decision.reviewEnd r.decision = _ at h
    change r.decision ∈ terminalReviewDecisions at terminal
    have reject : r.decision ≠ "reject" := by
      intro eq
      rw [eq] at h
      cases h
    have decline : r.decision ≠ "decline_to_act" := by
      intro eq
      rw [eq] at h
      cases h
    simpa [terminalReviewDecisions, reject, decline] using terminal

variable {v : View} {τ τ' : Tok} {a : Act} {j : JobId}

/-- Who can deliver a job, by what it is doing. -/
inductive Deliverer (v : View) (j : JobId) : Tok → Prop
  | decision {d p succ} (h : d.endStatus = .delivered) : Deliverer v j (.decides j d p succ)
  | dispatched {e permit} (free : ¬ permit.holds) : Deliverer v j (.works j (.dispatched e permit))
  | delivering : Deliverer v j (.works j .delivering)
  | waiting {todo p} (mem : j ∈ todo) (status : ∀ c, v.core j = some c → c.status = .responseReceived) :
      Deliverer v j (.boots todo p)
  | recovering {todo} : Deliverer v j (.boots todo (.delivering j))

theorem endType_delivered {d : Decision} (h : d.endType = "job.delivered") :
    d.endStatus = .delivered := by
  unfold Decision.endType at h
  cases hs : d.endStatus <;> rw [hs] at h <;> first | rfl | exact absurd h (by decide)

theorem allowed_announces (h : Allowed τ v a τ') {e : Event} (about : Lifecycle "job.delivered" j e)
    (base : ∀ i e permit, τ = .works i (.dispatched e permit) → Lifecycle "job.dispatched" i e)
    (grown : (a.apply v).trace = v.trace ++ [.attempted e]) : Deliverer v j τ := by
  have same {o : Obs} (h : v.trace ++ [o] = v.trace ++ [.attempted e]) : o = .attempted e := by
    simpa using h
  have none (h : v.trace = v.trace ++ [.attempted e]) : False := by
    simpa using congrArg List.length h
  cases h with
  | note harmless =>
    cases same grown
    exact absurd (by rw [about.1]; decide) harmless
  | endEvent mine =>
    cases same grown
    cases mine.2.symm.trans about.2
    exact .decision (endType_delivered (mine.1.symm.trans about.1))
  | deliverEvent free mine =>
    cases same grown
    cases mine.2.symm.trans about.2
    exact .dispatched free
  | bootDeliverEvent mem mine status =>
    cases same grown
    cases mine.2.symm.trans about.2
    exact .waiting mem status
  | dispatch =>
    cases same grown
    exact absurd ((base _ _ _ rfl).1.symm.trans about.1) (by decide)
  | announce mine | receive mine | proposeEvent mine | failEvent _ mine | bootFailEvent _ mine =>
    cases same grown
    exact absurd (mine.1.symm.trans about.1) (by decide)
  | acceptEvent reviewed =>
    cases same grown
    exact absurd (reviewed.symm.trans about.1) (by decide)
  | announceReview | announceDefer | abort | authorise | call | enqueueNew | enqueueSuccessor
  | bootEnqueue | bootDrop | bootScan => cases same grown
  | _ => exact (none grown).elim

theorem reserve_delivered {d : Decision} {c : Core} (h : (d.reserve c).status = .delivered) :
    c.status = .delivered := by
  cases d with
  | override => exact h
  | review p =>
    simp only [Decision.reserve] at h
    split at h
    · cases h
    · exact h

theorem allowed_delivers (h : Allowed τ v a τ') {c' : Core}
    (hc' : (a.apply v).core j = some c') (before : ∀ c, v.core j = some c → c.status ≠ .delivered)
    (done : c'.status = .delivered) : Deliverer v j τ := by
  rcases core_cases hc' with same | ⟨g, c, rfl, hc, rfl⟩ | rfl
  · exact absurd done (before c' same)
  · have before := before c hc
    cases h with
    | reserve | reserveAgain => exact absurd (reserve_delivered done) before
    | settle _ h =>
      rcases h with rfl | rfl
      · exact .decision done
      · exact .decision (reserve_delivered done)
    | deliver => exact .delivering
    | bootDeliver => exact .recovering
    | progress status => rcases status with rfl | rfl <;> cases done
    | fail _ h => rw [h c] at done; cases done
    | autoAccept | bootRecount | bootCount => exact absurd done before
    | failNew | failSuccessor | classify | propose | bootFail | bootReset => cases done
  · cases h with
    | store | storeSuccessor => cases done

/-- Under a hold, only a human decision is left. -/
theorem deliverer_held {toks : Toks} {t : Call} (base : Base v toks) (inv : Gate v toks)
    (mem : (t, τ) ∈ toks) (held : Held v.trace j) (h : Deliverer v j τ) : t.deliversByHand j := by
  cases h with
  | decision ended => exact delivers_decision (base.1.fits mem).1 ended
  | dispatched free =>
    obtain ⟨p, last, hp⟩ := held
    rw [inv.dispatched mem] at last
    cases last
    exact absurd (holds_of_held hp) free
  | delivering => exact absurd held (inv.delivering mem)
  | recovering => exact absurd held (inv.recovering mem)
  | @waiting todo p hj status =>
    have pos : 0 < (Tok.boots todo p).holds j := by
      have := List.count_pos_iff.mpr hj
      simp only [Tok.holds]
      omega
    obtain ⟨c, hc⟩ := (base.1.present mem pos).resolve_left id
    exact absurd held (inv.waiting mem hj hc (status c hc))

theorem restart_delivers {w : World} {j : JobId} : ¬ Delivers w w.restart j := by
  rintro (⟨job, hj, done, -⟩ | ⟨e, -, grown⟩)
  · simp only [World.restart, World.job?] at hj
    cases hd : w.db with
    | none => simp [hd] at hj
    | some db =>
      simp only [hd, Option.map_some, Option.getD_some, loadJobs, Dict.get?_filter] at hj
      have := (Option.filter_eq_some_iff.mp hj).2
      simp [resident, done] at this
  · have : w.restart.trace = w.trace := rfl
    rw [this] at grown
    simpa using congrArg List.length grown

theorem held_back (cfg : Settings) (persistent : Bool) :
    Always (orchestrator cfg) (Released cfg) (.boot _ (World.initial persistent)) HeldBack := by
  intro c l c' run released next j held delivers
  obtain ⟨toks, tracks, known, inv⟩ := Invariant.reach (base cfg) (gate cfg)
    (Plan.tracks_boot _) (base_initial persistent) (gate_initial persistent) run
  obtain ⟨toks', -, -, -, effect⟩ :=
    Invariant.step (base cfg) (gate cfg) tracks known inv released next
  generalize c'.state = w' at effect delivers
  cases effect with
  | start | quiet | finish => exact absurd delivers (unmoved_delivers rfl rfl)
  | crash again => cases again; exact absurd delivers restart_delivers
  | @move i t τ τ' w' at_ moved =>
    obtain ⟨a, allowed, eq⟩ := moved
    have mem := List.mem_of_getElem? at_
    obtain ⟨p, thread⟩ := tracks.thread at_
    have who : Deliverer c.state.view j τ := by
      rcases delivers with ⟨job', hj', done, before⟩ | ⟨e, about, grown⟩
      · have hc' : (a.apply c.state.view).core j = some job'.core := by
          rw [← eq, view_core, hj']
          rfl
        refine allowed_delivers allowed hc' (fun core hc => ?_) done
        obtain ⟨job, hj, rfl⟩ := Option.map_eq_some_iff.mp hc
        exact before job hj
      · refine allowed_announces allowed about (fun k e permit eq => ?_) ?_
        · subst eq
          exact known.1.dispatching mem
        · rw [← eq]
          exact grown
    exact ⟨i, t, p, rfl, thread, deliverer_held known inv mem held who⟩

/-- The startup is about to mark the job delivered, which is under a hold. -/
def deliversHeld (j : JobId) (c : Run checked) : Bool :=
  match c.running, (c.threads[0]? : Option (Thread (orchestrator checked))) with
  | some 0, some ⟨Call.startup, Co.set w _⟩ =>
    Held c.state.trace j && (w.job? j).any (·.status = .delivered) &&
      (c.state.job? j).any (·.status = .responseReceived)
  | _, _ => false

/-- A crash between the two writes of a held response: the startup delivers it. -/
theorem held_delivered : ¬ Always (orchestrator checked) (Anyhow checked)
    (.boot _ (World.initial true)) HeldBack := by
  obtain ⟨c, run, seen⟩ := reached (guards_anyhow checked) (fresh checked true)
    [.start .startup, .finish 0, .start (grant "pre_delivery"), .start (.submit (request none)),
      .finish 2, .start (.worker (uuid 2)), .resume 3, .resume 3, .resume 3, .resume 3, .resume 3,
      .resume 3, .pause 3 9, .crash, .start .startup, .pause 0 4]
    (deliversHeld (uuid 2)) (by decide +kernel)
  intro always
  unfold deliversHeld at seen
  split at seen
  · rename_i w k running at_
    simp only [Bool.and_eq_true, decide_eq_true_eq] at seen
    obtain ⟨⟨held, after⟩, before⟩ := seen
    obtain ⟨job', hj', done⟩ := (Option.any_eq_true _ _).mp after
    obtain ⟨job, hj, received⟩ := (Option.any_eq_true _ _).mp before
    have delivers : Delivers c.state w (uuid 2) := by
      refine .inl ⟨job', hj', by simpa using done, fun other hother => ?_⟩
      cases hj.symm.trans hother
      simp only [decide_eq_true_eq] at received
      simp [received]
    obtain ⟨i, t, p, eq, thread, hand⟩ := always run trivial (.set running at_) _ held delivers
    cases eq
    cases at_.symm.trans thread
    exact hand
  · cases seen

end Delivery

end Drnt.Orchestrator
