import Drnt.Orchestrator.Trial

/-! What the audit log has to answer before a job is stored, a check returns or a model is
called. The code takes any answer; a rejection is an answer too. -/
namespace Drnt.Orchestrator

open Lib Lib.Coop Trial

section Gated

/-- An outbound call belongs to a dispatch that was authorised and answered. -/
structure CalledFor (v : View) (e : Event) : Prop where
  authorised : ∃ permit, .authorised e permit ∈ v.trace
  answered : ∃ j, v.Answered "job.dispatched" j e

def CheckedFor (v : View) (e : Event) (permit : Permit) : Prop :=
  ∃ j check, Lifecycle "job.dispatched" j e ∧ v.Answered "wal.permission_check" j check ∧
    check.sourceEventId = permit.checkRef

def SubmittedFor (v : View) (j : JobId) : Prop := ∃ e, v.Answered "job.submitted" j e

structure Gated (v : View) (toks : Toks) : Prop where
  submitted : ∀ {j c}, v.core j = some c → c.parentJobId = none → SubmittedFor v j
  rows : ∀ {j c}, v.row j = some c → c.parentJobId = none → SubmittedFor v j
  dispatching : ∀ {t j e permit}, (t, .works j (.dispatched e permit)) ∈ toks →
    .authorised e permit ∈ v.trace
  authorised : ∀ {e permit}, .authorised e permit ∈ v.trace → CheckedFor v e permit
  called : ∀ {e call}, .called e call ∈ v.trace → CalledFor v e

variable {v v' : View} {toks : Toks} {i : Nat} {t : Call} {τ τ' : Tok} {a : Act} {j : JobId}
  {e : Event} {permit : Permit}

theorem answered_grown {type : String} (h : v.Answered type j e) (grows : v.Grows v') :
    v'.Answered type j e := by
  obtain ⟨isType, about, verdict, got, mem⟩ := h
  exact ⟨isType, about, verdict, got, grows.trace.subset mem⟩

theorem SubmittedFor.grown (h : SubmittedFor v j) (grows : v.Grows v') : SubmittedFor v' j := by
  obtain ⟨e, answered⟩ := h
  exact ⟨e, answered_grown answered grows⟩

theorem CheckedFor.grown (h : CheckedFor v e permit) (grows : v.Grows v') :
    CheckedFor v' e permit := by
  obtain ⟨j, check, about, answered, ref⟩ := h
  exact ⟨j, check, about, answered_grown answered grows, ref⟩

theorem CalledFor.grown (h : CalledFor v e) (grows : v.Grows v') : CalledFor v' e := by
  obtain ⟨⟨permit, mem⟩, j, answered⟩ := h
  exact ⟨⟨permit, grows.trace.subset mem⟩, j, answered_grown answered grows⟩

/-- A dispatch is authorised after its check has been answered. -/
theorem allowed_authorised (h : Allowed τ v a τ') (mem : .authorised e permit ∈ (a.apply v).trace) :
    .authorised e permit ∈ v.trace ∨ CheckedFor v e permit := by
  rcases apply_trace mem with old | rfl | ⟨_, _, eq⟩
  · exact .inl old
  · cases h with
    | authorise checked ref about => exact .inr ⟨_, _, about, checked, ref⟩
    | note harmless => exact harmless.elim
  · cases eq

/-- A call is made for the dispatch at hand, once that has been answered. -/
theorem allowed_called {call : OutboundCall} (h : Allowed τ v a τ')
    (mem : .called e call ∈ (a.apply v).trace) :
    .called e call ∈ v.trace ∨
      ∃ j permit, τ = .works j (.dispatched e permit) ∧ v.Answered "job.dispatched" j e := by
  rcases apply_trace mem with old | rfl | ⟨_, _, eq⟩
  · exact .inl old
  · cases h with
    | call answered => exact .inr ⟨_, _, rfl, answered⟩
    | note harmless => exact harmless.elim
  · cases eq

theorem allowed_dispatched (h : Allowed τ v a τ') (ht : τ' = .works j (.dispatched e permit)) :
    τ = .works j (.dispatched e permit) ∨ .authorised e permit ∈ (a.apply v).trace := by
  subst ht
  cases h with
  | authorise => exact .inr (by simp [Act.apply])
  | _ => exact .inl rfl

theorem allowed_submitted {c : Core} (h : Allowed τ v (.add j c) τ') (top : c.parentJobId = none) :
    SubmittedFor v j := by
  cases h with
  | store _ answered => exact ⟨_, answered⟩
  | storeSuccessor => cases top

theorem gated_move (inv : Gated v toks) (at_ : toks[i]? = some (t, τ)) (h : Allowed τ v a τ') :
    Gated (a.apply v) (toks.set i (t, τ')) := by
  have mem : (t, τ) ∈ toks := List.mem_of_getElem? at_
  have grows := h.grows
  have submitted {j c} (hc : (a.apply v).core j = some c) (top : c.parentJobId = none) :
      SubmittedFor (a.apply v) j := by
    rcases allowed_origin h hc with ⟨c₀, hc₀, same, -⟩ | rfl
    · exact (inv.submitted hc₀ (same ▸ top)).grown grows
    · exact (allowed_submitted h top).grown grows
  constructor
  · exact submitted
  · intro j c hr top
    rcases apply_row hr with old | hc
    · exact (inv.rows old top).grown grows
    · exact (inv.submitted hc top).grown grows
  · intro t' j e permit hm
    rcases mem_set hm with eq | ⟨k, -, hk⟩
    · cases eq
      rcases allowed_dispatched h rfl with rfl | new
      · exact grows.trace.subset (inv.dispatching mem)
      · exact new
    · exact grows.trace.subset (inv.dispatching (List.mem_of_getElem? hk))
  · intro e permit ho
    rcases allowed_authorised h ho with old | checked
    · exact (inv.authorised old).grown grows
    · exact checked.grown grows
  · intro e call ho
    rcases allowed_called h ho with old | ⟨j, permit, rfl, answered⟩
    · exact (inv.called old).grown grows
    · have calling : CalledFor v e := ⟨⟨permit, inv.dispatching mem⟩, j, answered⟩
      exact calling.grown grows

/-- Neither the start nor the end of a call is a dispatch. -/
theorem gated_plain {toks' : Toks} (inv : Gated v toks)
    (old : ∀ tok ∈ toks', tok ∈ toks ∨ tok.2.Plain) : Gated v toks' := by
  refine ⟨inv.submitted, inv.rows, ?_, inv.authorised, inv.called⟩
  intro t j e permit hm
  rcases old _ hm with hm | plain
  · exact inv.dispatching hm
  · exact plain.elim

theorem gated (cfg : Settings) : Invariant cfg (fun _ _ => True) Base Gated where
  start {c toks t} _ _ inv _ _ _ _ := by
    apply gated_plain inv
    intro tok hm
    rcases List.mem_append.mp hm with hm | hm
    · exact .inl hm
    · cases List.mem_singleton.mp hm
      exact .inr (first_plain t c.state)
  move _ inv at_ _ _ h := gated_move inv at_ h
  finish {w toks i t τ r} _ inv at_ _ _ := by
    apply gated_plain inv
    intro tok hm
    rcases mem_set hm with eq | ⟨k, -, hk⟩
    · cases eq
      exact .inr (retire_spent τ).plain
    · exact .inl (List.mem_of_getElem? hk)
  crash {c toks} _ _ inv _ :=
    ⟨fun hc => inv.rows (restart_core hc), fun hr => inv.rows (restart_row c.state _ ▸ hr),
      nofun, inv.authorised,
      fun ho => ⟨(inv.called ho).authorised, (inv.called ho).answered⟩⟩

theorem gated_initial (persistent : Bool) : Gated (World.initial persistent).view [] where
  submitted h _ := by cases h
  rows h _ := absurd h initial_row
  dispatching h := by cases h
  authorised h := by cases h
  called h := by cases h

end Gated

section Acknowledged

def gatingTypes : List String := ["job.submitted", "wal.permission_check", "job.dispatched"]

/-- The audit log has the event. -/
def World.Acknowledged (w : World) (e : Event) : Prop := .answered e .acknowledged ∈ w.trace

/-- Nothing gated has gone ahead on an event that the audit log does not contain. -/
structure FailsClosed {cfg : Settings} (c : Run cfg) : Prop where
  stored : ∀ {j job}, c.state.job? j = some job → job.parentJobId = none →
    ∃ e, e.eventType = "job.submitted" ∧ e.jobId = some j ∧ c.state.Acknowledged e
  queued : ∀ {j}, j ∈ c.state.queue → ∃ job, c.state.job? j = some job
  checked : ∀ {capabilityId action ctx mode result},
    c.Ended (.checkPermission capabilityId action ctx mode) (.ok result) →
    ∃ e, e.toDraft = permissionEvent result.toPermissionDecision ctx ∧
      e.sourceEventId = result.sourceEventId ∧ c.state.Acknowledged e
  authorised : ∀ {e permit}, .authorised e permit ∈ c.state.trace →
    ∃ check, check.eventType = "wal.permission_check" ∧ check.sourceEventId = permit.checkRef ∧
      check.jobId = e.jobId ∧ c.state.Acknowledged check
  called : ∀ {e call}, .called e call ∈ c.state.trace →
    e.eventType = "job.dispatched" ∧ c.state.Acknowledged e ∧
      ∃ permit, .authorised e permit ∈ c.state.trace

variable {cfg : Settings} {c : Run cfg}

theorem acknowledged_of_answered {w : World} {type : String} {j : JobId} {e : Event}
    (gating : type ∈ gatingTypes) (answered : w.view.Answered type j e)
    (accepted : ∀ e, e.eventType ∈ gatingTypes → .answered e .rejected ∉ w.trace) :
    e.eventType = type ∧ e.jobId = some j ∧ w.Acknowledged e := by
  obtain ⟨isType, about, verdict, got, mem⟩ := answered
  refine ⟨isType, about, ?_⟩
  cases verdict with
  | acknowledged => exact mem
  | rejected => exact absurd mem (accepted e (isType ▸ gating))
  | lost => exact absurd rfl got

theorem fails_closed {persistent : Bool}
    (run : Reach (orchestrator cfg) (fun _ _ => True) (.boot _ (World.initial persistent)) c)
    (accepted : ∀ e, e.eventType ∈ gatingTypes → .answered e .rejected ∉ c.state.trace) :
    FailsClosed c := by
  obtain ⟨toks, tracks, known, inv⟩ := Invariant.reach (base cfg) (gated cfg)
    (Plan.tracks_boot _) (base_initial persistent) (gated_initial persistent) run
  constructor
  · intro j job hj top
    have hc : c.state.view.core j = some job.core := by simp [hj]
    obtain ⟨e, answered⟩ := inv.submitted hc top
    exact ⟨e, acknowledged_of_answered (by decide) answered accepted⟩
  · intro j hq
    obtain ⟨core, hc⟩ := known.1.queued hq
    obtain ⟨job, hj, -⟩ := Option.map_eq_some_iff.mp hc
    exact ⟨job, hj⟩
  · intro capabilityId action ctx mode result ended
    obtain ⟨n, p, at_, fin⟩ := ended
    obtain ⟨τ, tok⟩ := tracks.token at_
    obtain ⟨τ₀, s₀, ends, grows, -⟩ := tracks.result at_ tok fin
    obtain ⟨e, draft, id, answered⟩ := ends result rfl
    have here : c.state.view.Answered "wal.permission_check" ctx.jobId e :=
      answered_grown answered grows
    exact ⟨e, draft, id, (acknowledged_of_answered (by decide) here accepted).2.2⟩
  · intro e permit ho
    obtain ⟨j, check, about, answered, ref⟩ := inv.authorised ho
    obtain ⟨isType, aboutCheck, acknowledged⟩ :=
      acknowledged_of_answered (by decide) answered accepted
    exact ⟨check, isType, ref, aboutCheck.trans about.2.symm, acknowledged⟩
  · intro e call ho
    obtain ⟨authorised, j, answered⟩ := inv.called ho
    obtain ⟨isType, -, acknowledged⟩ := acknowledged_of_answered (by decide) answered accepted
    exact ⟨isType, acknowledged, authorised⟩

theorem fails_closed_witness :
    ∃ c : Run checked, (c.state.trace.any fun o => o matches .called _ _) = true ∧ FailsClosed c := by
  obtain ⟨c, run, seen⟩ := reached (guards fun _ _ => true) (fresh checked false)
    [.start .startup, .finish 0, .start (grant "none"), .start (.submit (request none)), .finish 2,
      .start (.worker (uuid 2)), .finish 3]
    (fun c => (c.state.trace.any fun o => o matches .called _ _) &&
      c.state.trace.all fun o => !(o matches .answered _ .rejected)) (by decide +kernel)
  obtain ⟨called, accepted⟩ := Bool.and_eq_true_iff.mp seen
  refine ⟨c, called, fails_closed (run.mono fun _ _ _ => trivial) fun e _ rejected => ?_⟩
  have := List.all_eq_true.mp accepted _ rejected
  simp at this

/-- The writer rejects job.submitted, and the job is stored and queued all the same. -/
theorem submit_rejected : ∃ c : Run plain,
    Reach (orchestrator plain) (fun _ _ => True) (.boot _ (World.initial false)) c ∧
      ¬ FailsClosed c := by
  obtain ⟨c, run, seen⟩ := reached (guards fun _ _ => true) (fresh plain false)
    [.start .startup, .finish 0, .start (.submit (request (some "k"))),
      .resumeWith 1 (audited (.ok false) (World.initial false))]
    (fun c => (c.state.job? (uuid 1)).any (·.parentJobId = none) && c.state.trace.all fun o =>
      match o with
      | .answered e .acknowledged => e.eventType ≠ "job.submitted"
      | _ => true) (by decide +kernel)
  refine ⟨c, run.mono fun _ _ _ => trivial, fun closed => ?_⟩
  obtain ⟨here, none⟩ := Bool.and_eq_true_iff.mp seen
  obtain ⟨job, hj, top⟩ := (Option.any_eq_true _ _).mp here
  obtain ⟨e, isType, -, acknowledged⟩ := closed.stored hj (by simpa using top)
  have := List.all_eq_true.mp none _ acknowledged
  simp [isType] at this

end Acknowledged

end Drnt.Orchestrator
