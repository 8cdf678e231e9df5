import Drnt.Orchestrator.Custody

/-! Who executes a job and who has decided on it. A job that is being executed has not been
blamed on a capability, and a decision that was taken shows on the job. -/
namespace Drnt.Orchestrator

open Lib Lib.Coop

section Vitals

/-- The pipeline has still to come to an end with the job, or a human has. -/
def JobStatus.live : JobStatus → Bool
  | submitted | classified | dispatched | responseReceived | proposalReady => true
  | delivered | failed | revoked | closedNoAction => false

/-- A terminal review decision has been reserved. -/
def Core.reviewed (c : Core) : Prop := c.reviewDecision.any (· ∈ terminalReviewDecisions)

structure Core.Sound (c : Core) : Prop where
  closed : c.status = .closedNoAction → c.reviewed
  blameless : c.status.live → c.lastFailingCapabilityId = .null

section Guards

variable {job : Job}

theorem open_of_override (h : overrideRefusal job = none) :
    job.status ≠ .failed ∧ job.status ≠ .revoked ∧ ¬ job.core.reviewed ∧
      job.overrideType.isSome = false := by
  unfold overrideRefusal at h
  split at h
  · cases h
  rename_i unended
  split at h
  · cases h
  rename_i unreviewed
  split at h
  · cases h
  rename_i unoverridden
  refine ⟨fun eq => unended ?_, fun eq => unended ?_, fun reviewed => unreviewed reviewed, ?_⟩
  · simp [eq, terminalStates]
  · simp [eq, terminalStates]
  · simpa using unoverridden

theorem open_of_review {r : ReviewRequest} (h : reviewRefusal job r = none) :
    job.status = .proposalReady ∧ job.overrideType.isSome = false := by
  unfold reviewRefusal at h
  split at h
  · cases h
  rename_i ready
  split at h
  · cases h
  rename_i unoverridden
  exact ⟨by simpa using ready, by simpa using unoverridden⟩

end Guards

/-- The guard of a decision is set. -/
def Decision.Guards (c : Core) : Decision → Prop
  | override _ _ => c.overrideType.isSome
  | review _ => c.reviewed

def SubmitPhase.executes (j : JobId) : SubmitPhase → Prop
  | stored i => i = j
  | start | minted _ | claimed _ _ | ended => False

def Successor.executes (j : JobId) : Successor → Prop
  | waiting i => i = j
  | none | minted _ | made => False

def BootPhase.executes (j : JobId) : BootPhase → Prop
  | failing i | resetting i | queueing i | delivering i => i = j
  | rising | between | kept => False

namespace Tok

/-- The call goes on to move the job, or to queue it. -/
def executes (j : JobId) : Tok → Prop
  | submits _ _ p => p.executes j
  | decides _ _ _ succ => succ.executes j
  | works i stage => i = j ∧ stage ≠ .closed
  | boots _ p => p.executes j
  | idle | refused | decided _ _ _ | defers _ _ | repeats _ | fetches _ | polls _ => False

/-- The call decides or has decided on the job. -/
def about (j : JobId) : Tok → Prop
  | decides i _ _ _ | decided i _ _ => i = j
  | idle | refused | submits _ _ _ | defers _ _ | repeats _ | fetches _ | works _ _ | boots _ _
  | polls _ => False

/-- The call has taken the decision. -/
def took (j : JobId) (d : Decision) : Tok → Prop
  | decides i e p _ => i = j ∧ e = d ∧ p ≠ .accepted
  | decided i e _ => i = j ∧ e = d
  | idle | refused | submits _ _ _ | defers _ _ | repeats _ | fetches _ | works _ _ | boots _ _
  | polls _ => False

theorem about_of_took {τ : Tok} {j : JobId} {d : Decision} (h : τ.took j d) : τ.about j := by
  cases τ <;> first | exact h.1 | exact h

theorem holds_of_executes {τ : Tok} {j : JobId} (h : τ.executes j) : 0 < τ.holds j := by
  cases τ with
  | submits again l p =>
    cases p <;> simp_all [executes, holds, SubmitPhase.executes, SubmitPhase.holds]
  | decides i d p succ =>
    cases succ <;> simp_all [executes, holds, Successor.executes, Successor.holds]
  | works => simp_all [executes, holds]
  | boots todo p => cases p <;> simp_all [executes, holds, BootPhase.executes, BootPhase.holds]
  | _ => exact h.elim

end Tok

def Executing (v : View) (toks : Toks) (j : JobId) : Prop :=
  j ∈ v.queue ∨ ∃ tok ∈ toks, tok.2.executes j

structure Vitals (v : View) (toks : Toks) : Prop where
  sound : ∀ {j c}, v.core j = some c → c.Sound
  rows : ∀ {j c}, v.row j = some c → c.Sound
  present : ∀ {t τ j}, (t, τ) ∈ toks → τ.about j → ∃ c, v.core j = some c
  guarded : ∀ {t τ j d c}, (t, τ) ∈ toks → τ.took j d → v.core j = some c → d.Guards c
  blameless : ∀ {j c}, Executing v toks j → v.core j = some c → c.lastFailingCapabilityId = .null

variable {v : View} {toks : Toks} {i : Nat} {t : Call} {τ τ' : Tok} {a : Act} {j : JobId}

theorem executing_load (h : Executing v toks j) : 0 < load v toks j := by
  rcases h with queued | ⟨tok, mem, ex⟩
  · have := List.count_pos_iff.mpr queued
    simp only [load]
    omega
  · obtain ⟨k, at_⟩ := List.getElem?_of_mem mem
    have := tally_pos (f := fun tok => tok.2.holds j) at_ (Tok.holds_of_executes ex)
    simp only [load]
    omega

/-- Only what is executed, taken from the queue, newly made or found at the startup is
executed next. -/
theorem allowed_executes (h : Allowed τ v a τ') (ex : τ'.executes j) :
    τ.executes j ∨ j ∈ v.queue ∨ (∃ c, a = .add j c) ∨
      ∃ todo p, τ = .boots todo p ∧ j ∈ todo ∧
        ∀ c, v.core j = some c → c.status.live ∧ c.status ≠ .proposalReady := by
  cases h with
  | fetch head =>
    obtain ⟨rfl, -⟩ := ex
    exact .inr (.inl (List.mem_of_mem_head? head))
  | store | storeSuccessor => cases ex; exact .inr (.inr (.inl ⟨_, rfl⟩))
  | bootFailEvent mem _ status | bootReset mem status | bootCount mem status =>
    cases ex
    refine .inr (.inr (.inr ⟨_, _, rfl, mem, fun c hc => ?_⟩))
    have := status c hc
    cases hs : c.status <;> simp_all [JobStatus.live, queueable]
  | bootDeliverEvent mem _ status =>
    cases ex
    refine .inr (.inr (.inr ⟨_, _, rfl, mem, fun c hc => ?_⟩))
    simp [status c hc, JobStatus.live]
  | failEvent ready => exact .inl ⟨ex.1, fun closed => by simp [closed, Stage.done] at ready⟩
  | classify | authorise | dispatch | call | receive | progress | propose | deliverEvent =>
    exact .inl ⟨ex.1, (by simp)⟩
  | proposeEvent | deliver | fail | close => exact absurd rfl ex.2
  | enqueueNew | failNew | enqueueSuccessor | failSuccessor | mintJob | mintSuccessor | bind
  | release | boot | bootFail | bootEnqueue | bootDrop | bootDeliver | bootScan | bootKept
  | serve => exact ex.elim
  | _ => exact .inl ex

theorem allowed_about (h : Allowed τ v a τ') : τ'.about j ↔ τ.about j := by
  cases h <;> exact Iff.rfl

theorem allowed_took {d : Decision} (h : Allowed τ v a τ') (took : τ'.took j d) :
    τ.took j d ∨ a = .revise j d.reserve ∧ ∀ t, τ.fits t → d.fits t j := by
  cases h with
  | reserve => obtain ⟨rfl, rfl, -⟩ := took; exact .inr ⟨rfl, fun _ fits => fits.1⟩
  | announce | announceReview | endEvent | settle => exact .inl ⟨took.1, took.2.1, nofun⟩
  | abort taken => exact .inl ⟨took.1, took.2.1, taken⟩
  | conclude _ _ ready =>
    refine .inl ⟨took.1, took.2.1, ?_⟩
    rcases ready with rfl | ⟨rfl, -⟩ <;> nofun
  | release | serve => exact took.elim
  | _ => exact .inl took

section Revised

variable {g : Core → Core} {c : Core} {d : Decision}

theorem reserve_guards (fits : d.fits t j) : d.Guards (d.reserve c) := by
  cases d with
  | override => rfl
  | review p =>
    simp only [Decision.Guards, Core.reviewed, Decision.reserve, Option.any_some,
      decide_eq_true_eq]
    exact fits.1

/-- A guard that is set stays set. -/
theorem guards_kept (h : Allowed τ v (.revise j g) τ') (fits : τ.fits t) (hd : d.Guards c) :
    d.Guards (g c) := by
  have reserved {e : Decision} {c : Core} (fits : e.fits t j) (hd : d.Guards c) :
      d.Guards (e.reserve c) := by
    cases e with
    | override => cases d with
      | override => rfl
      | review => exact hd
    | review => cases d with
      | override => exact hd
      | review => exact reserve_guards fits
  have moved {st : JobStatus} : d.Guards (c.withStatus st) := by
    cases d <;> exact hd
  have closed {st : JobStatus} {error : Option (List Json)} : d.Guards (c.closes st error) := by
    cases d <;> exact hd
  have failed {error : List Json} : d.Guards (c.fails error) := by
    cases d <;> exact hd
  cases h with
  | reserve | reserveAgain => exact reserved fits.1 hd
  | settle _ h =>
    rcases h with rfl | rfl
    · exact closed
    · exact reserved fits.1 closed
  | fail _ h => rw [h c]; cases d <;> exact hd
  | autoAccept => cases d with
    | override => rfl
    | review => exact hd
  | failNew | failSuccessor | bootFail => exact failed
  | classify | progress | propose | deliver | bootReset | bootDeliver => exact moved
  | bootRecount | bootCount => cases d <;> exact hd

/-- Only the pipeline blames a capability, and then it is done with the job. -/
theorem revise_blame (h : Allowed τ v (.revise j g) τ') (c : Core) :
    (g c).lastFailingCapabilityId = c.lastFailingCapabilityId ∨
      (∃ stage, τ = .works j stage) ∧ τ' = .works j .closed := by
  have reserved (d : Decision) (c : Core) :
      (d.reserve c).lastFailingCapabilityId = c.lastFailingCapabilityId := by
    cases d <;> rfl
  cases h with
  | reserve | reserveAgain => exact .inl (reserved _ c)
  | settle _ h =>
    rcases h with rfl | rfl
    · exact .inl rfl
    · exact .inl (reserved _ _)
  | fail => exact .inr ⟨⟨_, rfl⟩, rfl⟩
  | _ => exact .inl rfl

theorem endStatus_closed (d : Decision) (h : d.endStatus = .closedNoAction) :
    ∃ p, d = .review p ∧ p.decision = "decline_to_act" := by
  cases d with
  | override t st =>
    simp only [Decision.endStatus, Decision.overrideEnd] at h
    split at h
    · cases h
    · split at h <;> cases h
  | review p =>
    simp only [Decision.endStatus, Decision.reviewEnd] at h
    split at h
    · cases h
    · split at h
      · exact ⟨p, rfl, ‹_›⟩
      · cases h

theorem endStatus_dead (d : Decision) : d.endStatus.live = false := by
  cases d with
  | override t st =>
    simp only [Decision.endStatus, Decision.overrideEnd]
    split
    · rfl
    · split <;> rfl
  | review p =>
    simp only [Decision.endStatus, Decision.reviewEnd]
    split
    · rfl
    · split <;> rfl

theorem reserve_sound (fits : d.fits t j) (h : c.Sound) : (d.reserve c).Sound := by
  cases d with
  | override => exact ⟨h.closed, h.blameless⟩
  | review p =>
    have reviewed : ((Decision.review p).reserve c).reviewed := reserve_guards fits
    refine ⟨fun _ => reviewed, fun live => ?_⟩
    simp only [Decision.reserve] at live ⊢
    split at live
    · cases live
    · exact h.blameless live

theorem revise_sound (h : Allowed τ v (.revise j g) τ') (here : v.core j = some c)
    (fits : τ.fits t) (sound : c.Sound) (guarded : ∀ d, τ.took j d → d.Guards c)
    (blameless : τ.executes j → c.lastFailingCapabilityId = .null) : (g c).Sound := by
  have failed {error : List Json} : (c.fails error).Sound := ⟨by rintro ⟨⟩, by rintro ⟨⟩⟩
  have delivered : (c.withStatus .delivered).Sound := ⟨by rintro ⟨⟩, by rintro ⟨⟩⟩
  have moved {st : JobStatus} (other : st ≠ .closedNoAction)
      (none : c.lastFailingCapabilityId = .null) : (c.withStatus st).Sound :=
    ⟨fun h => absurd h other, fun _ => none⟩
  cases h with
  | reserve | reserveAgain => exact reserve_sound fits.1 sound
  | settle _ h =>
    rename_i d _ error _
    have ended : (c.closes d.endStatus error).Sound := by
      refine ⟨fun closed => ?_, fun live => ?_⟩
      · obtain ⟨p, rfl, -⟩ := endStatus_closed d closed
        exact guarded _ ⟨rfl, rfl, (by simp)⟩
      · rw [Core.closes, endStatus_dead] at live; cases live
    rcases h with rfl | rfl
    · exact ended
    · exact reserve_sound fits.1 ended
  | fail _ h => rw [h c]; exact ⟨by rintro ⟨⟩, by rintro ⟨⟩⟩
  | autoAccept => exact ⟨sound.closed, sound.blameless⟩
  | bootRecount | bootCount => exact ⟨sound.closed, sound.blameless⟩
  | classify => exact moved (by simp) (blameless ⟨rfl, (by simp)⟩)
  | propose => exact moved (by simp) (blameless ⟨rfl, (by simp)⟩)
  | progress status =>
    refine moved ?_ (blameless ⟨rfl, (by simp)⟩)
    rcases status with rfl | rfl <;> simp
  | bootReset _ status =>
    refine moved (by simp) (sound.blameless ?_)
    have := status c here
    cases hs : c.status <;> simp_all [JobStatus.live, queueable]
  | failNew | failSuccessor | bootFail => exact failed
  | deliver | bootDeliver => exact delivered

end Revised

section Preserved

variable {c : Core}

theorem allowed_add_core (h : Allowed τ v (.add j c) τ') :
    c.Sound ∧ c.lastFailingCapabilityId = .null := by
  cases h with
  | store | storeSuccessor => exact ⟨⟨nofun, fun _ => rfl⟩, rfl⟩

/-- A job after a write: as before, revised, or new. -/
theorem core_cases (hc : (a.apply v).core j = some c) :
    v.core j = some c ∨ (∃ g c₀, a = .revise j g ∧ v.core j = some c₀ ∧ c = g c₀) ∨
      a = .add j c := by
  cases a with
  | revise i g =>
    simp only [Act.apply] at hc
    split at hc
    · subst j
      obtain ⟨c₀, found, rfl⟩ := Option.map_eq_some_iff.mp hc
      exact .inr (.inl ⟨g, c₀, rfl, found, rfl⟩)
    · exact .inl hc
  | add i c₀ =>
    simp only [Act.apply] at hc
    split at hc
    · subst j; cases hc; exact .inr (.inr rfl)
    · exact .inl hc
  | _ => exact .inl hc

/-- What is queued was queued, or its hand executed it. -/
theorem queue_cases (h : Allowed τ v a τ') (hq : j ∈ (a.apply v).queue) :
    j ∈ v.queue ∨ τ.executes j := by
  cases h with
  | enqueueNew | enqueueSuccessor | bootEnqueue =>
    exact (List.mem_append.mp hq).imp id fun new => (List.mem_singleton.mp new).symm
  | fetch => exact .inl (List.mem_of_mem_tail hq)
  | _ => exact .inl hq

/-- What is executed was executed before, or is newly made, or was found at the startup. -/
theorem executing_cases (at_ : toks[i]? = some (t, τ)) (h : Allowed τ v a τ')
    (ex : Executing (a.apply v) (toks.set i (t, τ')) j) :
    Executing v toks j ∨ (∃ c, a = .add j c) ∨ ∃ todo p, τ = .boots todo p ∧ j ∈ todo ∧
      ∀ c, v.core j = some c → c.status.live ∧ c.status ≠ .proposalReady := by
  have mem : (t, τ) ∈ toks := List.mem_of_getElem? at_
  rcases ex with queued | ⟨tok, hm, ex⟩
  · rcases queue_cases h queued with old | ex
    · exact .inl (.inl old)
    · exact .inl (.inr ⟨_, mem, ex⟩)
  · rcases mem_set hm with rfl | ⟨k, -, hk⟩
    · rcases allowed_executes h ex with old | queued | rest
      · exact .inl (.inr ⟨_, mem, old⟩)
      · exact .inl (.inl queued)
      · exact .inr rest
    · exact .inl (.inr ⟨tok, List.mem_of_getElem? hk, ex⟩)

/-- A job that the pipeline has closed is executed by nobody. -/
theorem closed_idle (base : Custody v toks) (at_ : toks[i]? = some (t, .works j .closed)) :
    ¬ Executing v toks j := by
  rintro (queued | ⟨tok, hm, ex⟩)
  · have := base.load_le at_ j
    have := List.count_pos_iff.mpr queued
    simp only [Tok.holds, if_true] at *
    omega
  · obtain ⟨k, hk⟩ := List.getElem?_of_mem hm
    by_cases eq : i = k
    · subst eq
      cases at_.symm.trans hk
      exact ex.2 rfl
    · exact base.exclusive eq at_ hk (by simp [Tok.holds]) (Tok.holds_of_executes ex)

theorem set_at {β : Type} {l : List β} {i : Nat} {b b' : β} (at_ : l[i]? = some b) :
    (l.set i b')[i]? = some b' :=
  List.getElem?_set_self (List.getElem?_eq_some_iff.mp at_).1

theorem vitals_move (base : Custody v toks) (inv : Vitals v toks)
    (at_ : toks[i]? = some (t, τ)) (h : Allowed τ v a τ') :
    Vitals (a.apply v) (toks.set i (t, τ')) := by
  have mem : (t, τ) ∈ toks := List.mem_of_getElem? at_
  have fits : τ.fits t := base.fits mem
  have sound {j c} (hc : (a.apply v).core j = some c) : c.Sound := by
    rcases core_cases hc with old | ⟨g, c₀, rfl, hc₀, rfl⟩ | rfl
    · exact inv.sound old
    · exact revise_sound h hc₀ fits (inv.sound hc₀) (fun d took => inv.guarded mem took hc₀)
        fun ex => inv.blameless (.inr ⟨_, mem, ex⟩) hc₀
    · exact (allowed_add_core h).1
  refine ⟨sound, fun {j c} hr => ?_, fun {t' τ₁ j} hm ab => ?_, fun {t' τ₁ j d c} hm took hc => ?_,
    fun {j c} ex hc => ?_⟩
  · rcases apply_row hr with old | hc
    · exact inv.rows old
    · exact inv.sound hc
  · have here : ∃ c, v.core j = some c := by
      rcases mem_set hm with eq | ⟨k, -, hk⟩
      · cases eq; exact inv.present mem ((allowed_about h).mp ab)
      · exact inv.present (List.mem_of_getElem? hk) ab
    exact h.grows.core here.choose_spec
  · -- the guard of a decision is set by the decision itself and never taken back
    have old (took : τ₁.took j d) (hm : (t', τ₁) ∈ toks) : d.Guards c := by
      rcases core_cases hc with same | ⟨g, c₀, rfl, hc₀, rfl⟩ | rfl
      · exact inv.guarded hm took same
      · exact guards_kept h fits (inv.guarded hm took hc₀)
      · obtain ⟨c₀, hc₀⟩ := inv.present hm (Tok.about_of_took took)
        rw [base.pending mem (allowed_add h).1] at hc₀
        cases hc₀
    rcases mem_set hm with eq | ⟨k, -, hk⟩
    · cases eq
      rcases allowed_took h took with before | ⟨rfl, own⟩
      · rcases core_cases hc with same | ⟨g, c₀, rfl, hc₀, rfl⟩ | rfl
        · exact inv.guarded mem before same
        · exact guards_kept h fits (inv.guarded mem before hc₀)
        · obtain ⟨c₀, hc₀⟩ := inv.present mem (Tok.about_of_took before)
          rw [base.pending mem (allowed_add h).1] at hc₀
          cases hc₀
      · rcases core_cases hc with same | ⟨g, c₀, eq, hc₀, rfl⟩ | eq
        · simp only [Act.apply, if_true, same, Option.map_some, Option.some.injEq] at hc
          exact hc ▸ reserve_guards (own t fits)
        · cases eq; exact reserve_guards (own t fits)
        · cases eq
    · exact old took (List.mem_of_getElem? hk)
  · have base' := custody_move base at_ h
    have blame {c₀ : Core} (hc₀ : v.core j = some c₀) (none : c₀.lastFailingCapabilityId = .null) :
        c.lastFailingCapabilityId = .null := by
      rcases core_cases hc with same | ⟨g, c₁, rfl, hc₁, rfl⟩ | rfl
      · cases hc₀.symm.trans same; exact none
      · cases hc₀.symm.trans hc₁
        rcases revise_blame h c₀ with same | ⟨-, rfl⟩
        · rw [same]; exact none
        · exact absurd ex (closed_idle base' (set_at at_))
      · exact (allowed_add_core h).2
    rcases executing_cases at_ h ex with before | ⟨c₀, rfl⟩ | ⟨todo, p, -, -, status⟩
    · cases hv : v.core j with
      | some c₀ => exact blame hv (inv.blameless before hv)
      | none =>
        rcases core_cases hc with same | ⟨g, c₁, -, hc₁, -⟩ | rfl
        · rw [hv] at same; cases same
        · rw [hv] at hc₁; cases hc₁
        · exact (allowed_add_core h).2
    · simp only [Act.apply, if_true, Option.some.injEq] at hc
      subst hc
      exact (allowed_add_core h).2
    · cases hv : v.core j with
      | some c₀ => exact blame hv ((inv.sound hv).blameless (status c₀ hv).1)
      | none =>
        rcases core_cases hc with same | ⟨g, c₁, -, hc₁, -⟩ | rfl
        · rw [hv] at same; cases same
        · rw [hv] at hc₁; cases hc₁
        · exact (allowed_add_core h).2

theorem unwritten_took (h : τ.Unwritten) (j : JobId) :
    (∀ d, ¬ τ.took j d) ∧ ¬ τ.executes j := by
  cases h with
  | decides => exact ⟨fun _ h => h.2.2 rfl, id⟩
  | _ => exact ⟨fun _ => id, id⟩

/-- A call that starts has taken nothing yet. -/
theorem first_took (t : Call) (w : World) (j : JobId) :
    (∀ d, ¬ (first t w).took j d) ∧ ¬ (first t w).executes j := by
  by_cases other : t = .startup
  · subst other; exact ⟨fun _ => id, id⟩
  · exact unwritten_took (first_unwritten w other) j

theorem first_about {w : World} (h : (first t w).about j) : ∃ c, w.view.core j = some c := by
  by_cases other : t = .startup
  · subst other; exact h.elim
  cases hf : first t w with
  | decides i d p succ =>
    rw [hf] at h
    cases h
    exact first_deciding hf
  | decided =>
    have := first_unwritten w other
    rw [hf] at this
    cases this
  | _ => rw [hf] at h; exact h.elim

theorem vitals_start {w : World} (inv : Vitals w.view toks) :
    Vitals w.view (toks ++ [(t, first t w)]) := by
  have old {tok : Call × Tok} (h : tok ∈ toks ++ [(t, first t w)]) :
      tok ∈ toks ∨ tok = (t, first t w) :=
    (List.mem_append.mp h).imp id List.mem_singleton.mp
  refine ⟨inv.sound, inv.rows, fun hm ab => ?_, fun hm took hc => ?_, fun ex hc => ?_⟩
  · rcases old hm with hm | eq
    · exact inv.present hm ab
    · cases eq; exact first_about ab
  · rcases old hm with hm | eq
    · exact inv.guarded hm took hc
    · cases eq; exact absurd took ((first_took t w _).1 _)
  · refine inv.blameless (ex.imp id fun ⟨tok, hm, ex⟩ => ?_) hc
    rcases old hm with hm | rfl
    · exact ⟨tok, hm, ex⟩
    · exact absurd ex (first_took t w _).2

theorem retire_about (h : τ.retire.about j) : τ.about j := by
  cases τ with
  | defers p phase => cases phase <;> exact h
  | _ => exact h

/-- A decision is not over before it has been taken. -/
theorem ends_took {cfg : Settings} {w : World} {r : Except Exc t.Res} {d : Decision} (ends : Ends cfg t r τ w)
    (fits : τ.fits t) (took : τ.retire.took j d) : τ.took j d := by
  cases τ with
  | decides i e p succ =>
    refine ⟨took.1, took.2, ?_⟩
    cases e with
    | override => obtain ⟨⟨q, rfl, -⟩, -⟩ := fits; exact (ends.decided _ _ _ rfl).1
    | review => obtain ⟨⟨-, q, device, rfl, -⟩, -⟩ := fits; exact (ends.decided _ _ _ rfl).1
  | decided => exact took
  | defers p phase => cases phase <;> exact took.elim
  | _ => exact took.elim

theorem vitals_finish {cfg : Settings} {w : World} {r : Except Exc t.Res} (base : Custody w.view toks)
    (inv : Vitals w.view toks) (at_ : toks[i]? = some (t, τ)) (ends : Ends cfg t r τ w) :
    Vitals w.view (toks.set i (t, τ.retire)) := by
  have mem : (t, τ) ∈ toks := List.mem_of_getElem? at_
  have old {tok : Call × Tok} (h : tok ∈ toks.set i (t, τ.retire)) :
      tok ∈ toks ∨ tok = (t, τ.retire) := by
    rcases mem_set h with h | ⟨k, -, h⟩
    · exact .inr h
    · exact .inl (List.mem_of_getElem? h)
  refine ⟨inv.sound, inv.rows, fun hm ab => ?_, fun hm took hc => ?_, fun ex hc => ?_⟩
  · rcases old hm with hm | eq
    · exact inv.present hm ab
    · cases eq; exact inv.present mem (retire_about ab)
  · rcases old hm with hm | eq
    · exact inv.guarded hm took hc
    · cases eq; exact inv.guarded mem (ends_took ends (base.fits mem) took) hc
  · refine inv.blameless (ex.imp id fun ⟨tok, hm, ex⟩ => ?_) hc
    rcases old hm with hm | rfl
    · exact ⟨tok, hm, ex⟩
    · have := Tok.holds_of_executes ex
      rw [(retire_spent τ).empty] at this
      cases this

theorem vitals_restart {w : World} (inv : Vitals w.view toks) : Vitals w.restart.view [] where
  sound h := inv.rows (restart_core h)
  rows h := inv.rows (restart_row w _ ▸ h)
  present h := by cases h
  guarded h := by cases h
  blameless h := by rcases h with h | ⟨_, h, _⟩ <;> cases h

end Preserved

end Vitals

section Boots

/-- What is known of every state that the process can be in. -/
def Base (v : View) (toks : Toks) : Prop := Custody v toks ∧ Vitals v toks

theorem base (cfg : Settings) : Invariant cfg (fun _ _ => True) (fun _ _ => True) Base where
  start _ _ inv parked _ _ may := ⟨custody_start inv.1 parked may, vitals_start inv.2⟩
  move _ inv at_ _ _ h := ⟨custody_move inv.1 at_ h, vitals_move inv.1 inv.2 at_ h⟩
  finish _ inv at_ _ ends := ⟨custody_finish inv.1 at_, vitals_finish inv.1 inv.2 at_ ends⟩
  crash _ _ inv _ := ⟨custody_restart inv.1, vitals_restart inv.2⟩

/-- A process that has never run, with or without a database. -/
def World.initial (persistent : Bool) : World where
  phase := .stopped
  jobs := ∅
  queue := []
  processing := none
  polling := false
  workerContexts := ∅
  activeContexts := ∅
  records := ∅
  reviewRecords := ∅
  sourceEventRecords := ∅
  sourceEventLocks := []
  hub := .active
  capabilities := ∅
  capabilityStates := ∅
  availableRoutes := []
  db := if persistent then some ⟨∅, ∅, ∅, ∅, none⟩ else none
  artifacts := []
  issued := []
  trace := []

abbrev Run (cfg : Settings) := Config (orchestrator cfg)

/-- The process can start from this state, after any number of crashes. -/
def Boots (cfg : Settings) (w : World) : Prop :=
  ∃ persistent, Reach (orchestrator cfg) (fun _ _ => True)
    (.boot _ (World.initial persistent)) (.boot _ w)

theorem initial_row {persistent : Bool} {j : JobId} {c : Core} :
    (World.initial persistent).view.row j ≠ some c := by
  cases persistent <;> exact nofun

theorem custody_initial (persistent : Bool) : Custody (World.initial persistent).view [] where
  single _ := Nat.zero_le _
  known _ pos := absurd pos (Nat.lt_irrefl 0)
  issued h := by cases h
  rows h := absurd h initial_row
  pending h := by cases h
  present h := by cases h
  queued h := by cases h
  working h := by cases h
  dispatching h := by cases h
  parent h := by cases h
  deciding h := by cases h
  phased h := by cases h
  asleep _ := rfl
  enqueued h := by cases h
  booting := Nat.zero_le _
  minting h := by cases h
  fits h := by cases h

theorem vitals_initial (persistent : Bool) : Vitals (World.initial persistent).view [] where
  sound h := by cases h
  rows h := absurd h initial_row
  present h := by cases h
  guarded h := by cases h
  blameless h := by rcases h with h | ⟨_, h, _⟩ <;> cases h

theorem base_initial (persistent : Bool) : Base (World.initial persistent).view [] :=
  ⟨custody_initial persistent, vitals_initial persistent⟩

variable {cfg : Settings}

theorem Boots.initial (cfg : Settings) (persistent : Bool) :
    Boots cfg (World.initial persistent) := ⟨persistent, .refl⟩

theorem Boots.base {w : World} (h : Boots cfg w) : Base w.view [] := by
  obtain ⟨persistent, run⟩ := h
  obtain ⟨toks, tracks, inv⟩ := Plan.reach (plan_sound cfg).under (Drnt.Orchestrator.base cfg).preserves
    (Plan.tracks_boot _) (base_initial persistent) run
  have : toks = [] := List.length_eq_zero_iff.mp tracks.length
  exact this ▸ inv

/-- A configuration without threads is that of a stopped process. -/
theorem stopped_of_reach {persistent : Bool} {c : Run cfg}
    (run : Reach (orchestrator cfg) (fun _ _ => True) (.boot _ (World.initial persistent)) c)
    (idle : c.threads = []) : c.state.phase = .stopped := by
  cases run with
  | refl => rfl
  | step _ _ next =>
    cases next with
    | start => simp at idle
    | crash again => cases again; rfl
    | get run at_ | set run at_ | answer run at_ | resume run at_ =>
      have := (List.getElem?_eq_some_iff.mp at_).1
      have := congrArg List.length idle
      simp only [List.length_set, List.length_nil] at this
      omega
    | park run at_ | finish run at_ =>
      have := (List.getElem?_eq_some_iff.mp at_).1
      have := congrArg List.length idle
      simp only [List.length_nil] at this
      omega

theorem Boots.stopped {w : World} (h : Boots cfg w) : w.phase = .stopped := by
  obtain ⟨persistent, run⟩ := h
  exact stopped_of_reach run rfl

end Boots

end Drnt.Orchestrator
