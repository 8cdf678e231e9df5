import Drnt.Lib.Gate
import Drnt.Orchestrator.Trial

/-! What a suspended hub still sends out. The worker loop looks at the hub once, at the start
of an iteration; a run that is past that look goes on. -/
namespace Drnt.Orchestrator

open Lib Lib.Coop Trial

section Issuing

/-- A job.dispatched event, or a call to a worker, to the local model or to the gateway. -/
def Obs.issued : Obs → Bool
  | .attempted e => e.eventType = "job.dispatched"
  | .called _ _ => true
  | .answered _ _ | .bestEffort _ | .unwritten _ | .enqueued _ | .authorised _ _ | .reviewed _ _
  | .recovered _ _ | .unqueued _ => false

/-- A dispatch or a call leaves the process. -/
def Issues (w w' : World) : Prop := ∃ o, w'.trace = w.trace ++ [o] ∧ o.issued

def Req.isGate (q : Req) : Prop := q = .hubActive

def Call.works : Call → Prop
  | .worker _ => True
  | .startup | .autoAccept | .submit _ | .override _ _ | .review _ _ _
  | .checkPermission _ _ _ _ | .setHub _ _ | .configure _ _ _ => False

def World.shut (w : World) : Prop := w.hub ≠ .active

theorem issues_grows {w w' : World} (same : w'.trace = w.trace) : ¬ Issues w w' := by
  rintro ⟨o, grown, -⟩
  simp [same] at grown

variable {v : View} {τ τ' : Tok} {a : Act} {o : Obs}

/-- Only the pipeline issues anything. -/
theorem allowed_issues (h : Allowed τ v a τ') (grown : (a.apply v).trace = v.trace ++ [o])
    (issued : o.issued) : ∃ j stage, τ = .works j stage := by
  have types {e : Event} {type : String} (isType : e.eventType = type) :
      (Obs.attempted e).issued = true → type = "job.dispatched" := by
    intro issued
    exact isType ▸ of_decide_eq_true issued
  rcases apply_grown grown with rfl | ⟨j, rfl, rfl⟩
  · cases h with
    | authorise | dispatch | call | receive | proposeEvent | deliverEvent | failEvent =>
      exact ⟨_, _, rfl⟩
    | note harmless =>
      cases o with
      | attempted e =>
        have isType : e.eventType = "job.dispatched" := of_decide_eq_true issued
        exact absurd (show e.eventType ∈ _ by rw [isType]; decide) harmless
      | called => exact harmless.elim
      | _ => cases issued
    | announce about | bootFailEvent _ about | bootDeliverEvent _ about =>
      exact absurd (types about.1 issued) (by decide)
    | acceptEvent isType => exact absurd (types isType issued) (by decide)
    | endEvent about =>
      rename_i j d succ e
      have dispatched := types about.1 issued
      have dead := endStatus_dead d
      cases hs : d.endStatus <;>
        simp_all [Decision.endType, JobStatus.value, JobStatus.live]
    | announceReview | abort | announceDefer | bootDrop | bootScan => cases issued
  · cases issued

end Issuing

section Suspended

/-- The loop looks at the hub before it does anything with a job. -/
theorem iteration_waits {cfg : Settings} {w : World} {j : JobId} (closed : w.shut) :
    ¬ (workerIteration cfg j).May Issues Req.isGate w := by
  have unfolded : workerIteration cfg j = Co.get fun w : World => Co.set (w.dequeue j) <|
      Co.get fun w : World => (Co.tryCatch (if w.hub ≠ .active then
        (perform .hubActive).bind fun _ => runPipeline cfg j else runPipeline cfg j)
        fun _ => pipelineFailed cfg j).bind fun _ => update (·.taskDone) := rfl
  rw [unfolded]
  rintro (issues | may)
  · exact issues_grows rfl issues
  · have closed : (w.dequeue j).hub ≠ .active := closed
    change Co.May _ _ ((Co.tryCatch (ite ((w.dequeue j).hub ≠ .active) _ _) _).bind _) _ at may
    rw [if_pos closed] at may
    exact may.1 rfl

theorem hubGate (cfg : Settings) :
    Lib.Coop.Gate (M := orchestrator cfg) Issues Req.isGate Call.works World.shut where
  waits {w t} closed works _ := by
    cases t with
    | worker j => exact iteration_waits closed
    | _ => exact works.elim
  opens {w q a} isGate answers := by
    cases isGate
    exact fun closed => closed answers

variable {cfg : Settings} {c c' : Run cfg} {l : Label (orchestrator cfg)}

/-- The hub stops being active only when no run of the pipeline that is past its look at the
hub may still dispatch its job or make its call. -/
def uninterrupted (c : Run cfg) (l : Label (orchestrator cfg)) : Prop :=
  c.ShutsClear Issues Req.isGate Call.works World.shut l

/-- While the hub is not active, nothing is issued. -/
theorem suspended_silent {persistent : Bool} :
    Always (orchestrator cfg) uninterrupted (.boot _ (World.initial persistent))
      fun c _ c' => Issues c.state c'.state → c.state.hub = .active := by
  intro c l c' run met next issues
  have held := held_reach (hubGate cfg) (fun met => met) run
  obtain ⟨toks, tracks, known⟩ := Plan.reach (plan_sound cfg).under (base cfg).preserves
    (Plan.tracks_boot _) (base_initial persistent) (run.mono fun _ _ _ => trivial)
  cases next with
  | @set i t w k running at_ =>
    obtain ⟨τ, tok⟩ := tracks.token at_
    obtain ⟨τ', ⟨a, allowed, written⟩, -⟩ := tracks.runs at_ tok running
    obtain ⟨o, grown, issued⟩ := issues
    have grown : (a.apply c.state.view).trace = c.state.view.trace ++ [o] := written ▸ grown
    obtain ⟨j, stage, rfl⟩ := allowed_issues allowed grown issued
    have worker : t = .worker j := known.1.fits (List.mem_of_getElem? tok)
    subst worker
    have opened := open_of_work held at_ trivial ⟨o, ‹_›, issued⟩
    exact not_not.mp opened
  | crash again =>
    cases again
    exact absurd issues (issues_grows rfl)
  | _ => exact absurd issues (issues_grows rfl)

/-- The hub stops being active only when every run of the pipeline has finished. -/
def atRestOnly (c : Run cfg) : Label (orchestrator cfg) → Bool
  | .work i =>
    match (c.threads[i]? : Option (Thread (orchestrator cfg))) with
    | some ⟨_, .set w _⟩ => c.state.hub ≠ .active || w.hub = .active ||
        c.threads.all fun th => !(th.1 matches .worker _) || decide th.2.Finished
    | _ => true
  | .start _ | .answer _ _ _ | .crash => true

theorem guards_uninterrupted : Driver.Guards (@uninterrupted cfg) atRestOnly := by
  intro c l checked
  cases l with
  | work i =>
    intro t w k at_ opened closed th mem works s may
    have opened : c.state.hub = .active := not_not.mp opened
    have closed : w.hub ≠ .active := closed
    simp only [atRestOnly, at_, opened, closed, ne_eq, not_true_eq_false, decide_false,
      Bool.false_or, List.all_eq_true] at checked
    have finished := checked th mem
    obtain ⟨t', p⟩ := th
    cases t' with
    | worker j =>
      have finished : p.Finished := by simpa using finished
      cases p with
      | ret | raise => exact may
      | get | set | call => exact finished
    | _ => exact works.elim
  | _ => trivial

/-- The next step of a computed run issues something. -/
def issuing (c : Run cfg) : Bool :=
  ((driver cfg).tick c).any fun r => atRestOnly c r.1 && r.2.state.trace.getLast?.any fun o =>
    o.issued && r.2.state.trace = c.state.trace ++ [o]

theorem step_of_issuing (h : issuing c = true) :
    ∃ l c', uninterrupted c l ∧ Step (orchestrator cfg) c l c' ∧ Issues c.state c'.state := by
  obtain ⟨⟨l, c'⟩, next, holds⟩ := (Option.any_eq_true _ _).mp h
  obtain ⟨calm, holds⟩ := Bool.and_eq_true_iff.mp holds
  obtain ⟨o, -, holds⟩ := (Option.any_eq_true _ _).mp holds
  obtain ⟨issued, grown⟩ := Bool.and_eq_true_iff.mp holds
  have met : uninterrupted c l := guards_uninterrupted c l calm
  exact ⟨l, c', met, Driver.tick_step next, o, of_decide_eq_true grown, issued⟩

/-- The hub is suspended while a job waits in the queue, and resumed before its dispatch. -/
theorem suspended_silent_witness : ∃ (c c' : Run plain) (l : Label (orchestrator plain)),
    Step (orchestrator plain) c l c' ∧ Issues c.state c'.state ∧ c.state.hub = .active := by
  obtain ⟨c, run, seen⟩ := reached guards_uninterrupted (fresh plain true)
    [.start .startup, .finish 0, .start (.setHub .suspended "suspend_command"), .finish 1,
      .start (.submit (request (some "k"))), .finish 2, .start (.worker (uuid 2)),
      .start (.setHub .active "resume_command"), .finish 4, .resume 3, .resume 3, .resume 3,
      .pause 3 10]
    issuing (by decide +kernel)
  obtain ⟨l, c', met, next, issues⟩ := step_of_issuing seen
  exact ⟨c, c', l, next, issues, suspended_silent run met next issues⟩

/-- A call of suspend, the fourth of a run, has returned. -/
def suspendReturned (c : Run cfg) : Bool :=
  match (c.threads[3]? : Option (Thread (orchestrator cfg))) with
  | some ⟨.setHub .suspended _, .ret ()⟩ => true
  | _ => false

/-- The hub is suspended while the classifier is at work, and the job is dispatched. -/
theorem dispatched_on_suspended : ∃ (c c' : Run plain) (l : Label (orchestrator plain))
    (reason : String), Reach (orchestrator plain) (Anyhow plain) (.boot _ (World.initial true)) c ∧
      c.Ended (.setHub .suspended reason) (.ok ()) ∧ c.state.hub = .suspended ∧
      Step (orchestrator plain) c l c' ∧ Issues c.state c'.state := by
  obtain ⟨c, run, seen⟩ := reached (guards_anyhow plain) (fresh plain true)
    [.start .startup, .finish 0, .start (.submit (request (some "k"))), .finish 1,
      .start (.worker (uuid 1)), .start (.setHub .suspended "suspend_command"), .finish 3,
      .resume 2, .resume 2, .pause 2 10]
    (fun c => issuing c && suspendReturned c && c.state.hub = .suspended) (by decide +kernel)
  obtain ⟨⟨seen, returned⟩, suspended⟩ := by
    simpa only [Bool.and_eq_true, decide_eq_true_eq] using seen
  obtain ⟨l, c', -, next, issues⟩ := step_of_issuing seen
  unfold suspendReturned at returned
  split at returned
  · exact ⟨c, c', l, _, run, ⟨3, _, ‹_›, rfl⟩, suspended, next, issues⟩
  · cases returned

end Suspended

end Drnt.Orchestrator
