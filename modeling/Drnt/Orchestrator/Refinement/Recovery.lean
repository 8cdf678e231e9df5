import Drnt.Orchestrator.Refinement.Steps

/-! The startup, the auto-accept loop and the calls that move no job under the discipline. -/
namespace Drnt.Orchestrator

open Lib Lib.Coop

section Recovery

variable {cfg : Settings} {j : JobId} {w : World} {todo : List JobId}

/-- The recovery pass has dealt with a job whose handling ended so. -/
def Handled {α : Type} (todo : List JobId) (j : JobId) (r : Except Exc α) (τ : Tok) : Prop :=
  match r with
  | .ok _ => τ = .boots (todo.filter (· ≠ j)) .between
  | .error _ => True

/-- A job under the cap is left as it is; at the cap it fails. -/
theorem checkDispatchCap_follows (here : j ∈ todo)
    (status : ∀ c, w.view.core j = some c → c.status ∈ queueable) :
    Follows discipline (.boots todo .between) w (checkDispatchCap j) fun r τ w' => match r with
      | .ok true => τ = .boots todo .between ∧ w' = w ∧
          ∀ c, w.view.core j = some c → c.recoveryDispatchCount < maxRecoveryDispatches
      | .ok false => τ = .boots (todo.filter (· ≠ j)) .between
      | .error _ => True := by
  simp only [checkDispatchCap, Co.bind_eq, Co.pure_eq]
  refine deref_then (fun job hj => ?_) fun _ => trivial
  split
  · have type (e : Event) (he : e.toDraft = eventJobFailed j (.text "recovery_exhausted")
        (.text "Recovery re-dispatch cap (2) exceeded") .null) : Lifecycle "job.failed" j e := by
      constructor <;> simp [he, eventJobFailed]
    refine emit_then (σ := .boots (todo.filter (· ≠ j)) (.failing j))
      (fun e u he => .bootFailEvent here (type e he) status) trivial (fun w₁ e he _ sent => ?_)
      fun _ _ _ _ => trivial
    refine update_then (.revise j (.fails recoveryExhaustedError)) (.bootFail ?_)
      (view_updateJob (fun _ => rfl) _ j) rfl
    exact ⟨e, (type e he).1, (type e he).2, sent⟩
  · rename_i under
    refine ⟨rfl, rfl, fun c hc => ?_⟩
    simp only [view_core, hj, Option.map_some, Option.some.injEq] at hc
    exact hc ▸ Nat.lt_of_not_le under

theorem enqueueForRecovery_follows {τ : Tok}
    (count : Allowed τ w.view (.revise j .recount) (.boots todo (.queueing j))) :
    Follows discipline τ w (enqueueForRecovery j) fun r τ' _ => match r with
      | .ok _ => τ' = .boots todo .between
      | .error _ => True := by
  simp only [enqueueForRecovery, Co.bind_eq, Co.pure_eq]
  refine update_then (.revise j .recount) count (view_updateJob (fun _ => rfl) _ j) ?_
  refine emit_then (σ := .boots todo (.queueing j)) (fun e u he => .note ?_) trivial
    (fun w₁ e _ _ _ => ?_) fun _ _ _ _ => trivial
  · simp [Obs.Harmless, he, eventJobQueued, lifecycleTypes]
  · exact putNowait_then .bootEnqueue rfl ⟨_, ⟨_, .bootDrop, rfl⟩, rfl⟩

theorem recoverQueued_follows {action : RecoveryAction} (here : j ∈ todo)
    (status : ∀ c, w.view.core j = some c → c.status ∈ queueable) :
    Follows discipline (.boots todo .between) w (recoverQueued j action)
      fun r τ _ => Handled todo j r τ := by
  simp only [recoverQueued, Co.bind_eq, Co.pure_eq]
  refine run_then (checkDispatchCap_follows here status) ?_ fun _ _ _ _ _ => trivial
  rintro w₁ τ (_ | _) _ h
  · exact h
  · obtain ⟨rfl, rfl, under⟩ := h
    refine run_then (enqueueForRecovery_follows (.bootCount here status under)) ?_
      fun _ _ _ _ _ => trivial
    rintro _ _ _ _ rfl
    exact rfl

/-- A dispatched job is skipped while it is young. -/
theorem recoverDispatched_follows {now : UtcTime} (here : j ∈ todo)
    (status : ∀ c, w.view.core j = some c → c.status ∈ queueable) :
    Follows discipline (.boots todo .between) w (recoverDispatched cfg j now)
      fun r τ _ => Handled todo j r τ ∨ r = .ok .skipped ∧ τ = .boots todo .between := by
  simp only [recoverDispatched, Co.bind_eq, Co.pure_eq]
  refine deref_then (fun job hj => ?_) fun _ => .inl trivial
  split
  · exact .inr ⟨rfl, rfl⟩
  refine run_then (checkDispatchCap_follows here status) ?_ fun _ _ _ _ _ => .inl trivial
  rintro w₁ τ (_ | _) _ h
  · exact .inl h
  · obtain ⟨rfl, rfl, under⟩ := h
    have view : (w₁.updateJob j fun job => { job with status := .classified }).view =
        (Act.revise j (.withStatus .classified)).apply w₁.view :=
      view_updateJob (fun _ => rfl) _ j
    refine update_then (.revise j (.withStatus .classified)) (.bootReset here status under) view ?_
    refine run_then (enqueueForRecovery_follows (.bootRecount fun c hc => ?_)) ?_
      fun _ _ _ _ _ => .inl trivial
    · rw [view] at hc
      simp only [Act.apply, if_true, Option.map_eq_some_iff] at hc
      obtain ⟨c, hc, rfl⟩ := hc
      exact under c hc
    · rintro _ _ _ _ rfl
      exact .inl rfl

theorem recoverResponseReceived_follows (here : j ∈ todo)
    (status : ∀ c, w.view.core j = some c → c.status = .responseReceived) :
    Follows discipline (.boots todo .between) w (recoverResponseReceived j)
      fun r τ _ => Handled todo j r τ := by
  simp only [recoverResponseReceived, Co.bind_eq, Co.pure_eq]
  refine emit_then (σ := .boots (todo.filter (· ≠ j)) (.delivering j))
    (fun e u he => .bootDeliverEvent here ⟨?_, ?_⟩ status) trivial
    (fun w₁ e he _ sent => now_then fun t => ?_) fun _ _ _ _ => trivial
  · simp [he, eventJobDelivered]
  · simp [he, eventJobDelivered]
  have told : w₁.view.Told "job.delivered" j :=
    ⟨e, by simp [he, eventJobDelivered], by simp [he, eventJobDelivered], sent⟩
  exact update_then (.revise j (.withStatus .delivered)) (.bootDeliver told)
    (view_updateJob (fun _ => rfl) _ j) rfl

/-- A job has been dealt with, or there was nothing to do for it. -/
theorem recoverJob_follows {now : UtcTime} (here : j ∈ todo) :
    Follows discipline (.boots todo .between) w (recoverJob cfg j now) fun r τ w' =>
      Handled todo j r τ ∨ ∃ action, r = .ok action ∧ τ = .boots todo .between ∧
        (action = some .skipped ∨
          ∀ c, w'.view.core j = some c → c.status ∉ .responseReceived :: queueable) := by
  simp only [recoverJob, Co.bind_eq, Co.pure_eq]
  refine deref_then (fun job hj => ?_) fun _ => .inl trivial
  have status (P : JobStatus → Prop) (h : P job.status) (c : Core)
      (hc : w.view.core j = some c) : P c.status := by
    rw [view_core, hj] at hc
    cases hc; exact h
  have settled (action : Option RecoveryAction)
      (h : job.status ∉ JobStatus.responseReceived :: queueable) :
      Handled (α := Option RecoveryAction) todo j (.ok action) (.boots todo .between) ∨
        ∃ a, (Except.ok action : Except Exc (Option RecoveryAction)) = .ok a ∧
          Tok.boots todo .between = .boots todo .between ∧ (a = some .skipped ∨
            ∀ c, w.view.core j = some c → c.status ∉ .responseReceived :: queueable) :=
    .inr ⟨action, rfl, rfl, .inr (status (· ∉ .responseReceived :: queueable) h)⟩
  split
  · exact settled _ (by simp [queueable, *])
  · exact settled _ (by simp [queueable, *])
  · exact settled _ (by simp [queueable, *])
  · exact run_then (recoverQueued_follows here (status (· ∈ queueable) (by simp [queueable, *])))
      (fun _ _ _ _ h => .inl h) fun _ _ _ _ _ => .inl trivial
  · exact run_then (recoverQueued_follows here (status (· ∈ queueable) (by simp [queueable, *])))
      (fun _ _ _ _ h => .inl h) fun _ _ _ _ _ => .inl trivial
  · refine run_then
      (recoverDispatched_follows here (status (· ∈ queueable) (by simp [queueable, *])))
      ?_ fun _ _ _ _ _ => .inl trivial
    rintro _ _ action _ (h | ⟨h, rfl⟩)
    · exact .inl h
    · cases h
      exact .inr ⟨_, rfl, rfl, .inl rfl⟩
  · exact run_then
      (recoverResponseReceived_follows here (status (· = .responseReceived) (by assumption)))
      (fun _ _ _ _ h => .inl h) fun _ _ _ _ _ => .inl trivial
  · exact settled _ (by simp [queueable, *])
  · exact settled _ (by simp [queueable, *])

theorem recoverAll_follows {now : UtcTime} {js : List JobId} {report : RecoveryReport}
    (nodup : js.Nodup) :
    Follows discipline (.boots js .between) w (recoverAll cfg now js report) fun r τ _ =>
      match r with
      | .ok _ => τ = .boots [] .between
      | .error _ => True := by
  induction js generalizing w report with
  | nil => exact rfl
  | cons j rest ih =>
    rw [List.nodup_cons] at nodup
    have left : (j :: rest).filter (· ≠ j) = rest := by
      simp only [List.filter_cons, ne_eq, not_true_eq_false, decide_false, Bool.false_eq_true,
        if_false]
      exact List.filter_eq_self.mpr fun i hi =>
        decide_eq_true (fun h : i = j => nodup.1 (h ▸ hi))
    have left' : rest.filter (· ≠ j) = rest :=
      List.filter_eq_self.mpr fun i hi => decide_eq_true fun h : i = j => nodup.1 (h ▸ hi)
    simp only [recoverAll, Co.bind_eq]
    refine run_then (recoverJob_follows (List.mem_cons_self ..)) (fun w₁ τ₁ action _ h => ?_)
      fun _ _ _ _ _ => trivial
    have scan : Allowed τ₁ w₁.view (.observe (.recovered j action)) (.boots rest .between) := by
      rcases h with rfl | ⟨_, h, rfl, why⟩
      · rw [left]
        conv => rhs; rw [← left']
        exact .bootScan fun mem => absurd mem nodup.1
      · cases h
        conv => rhs; rw [← left]
        exact .bootScan fun _ => why
    exact update_then _ scan rfl (ih nodup.2)

/-- The count of every job outside the list is kept in its row. -/
def KeptBut (js : List JobId) (v : View) : Prop :=
  ∀ j c r, j ∉ js → v.core j = some c → v.row j = some r →
    r.recoveryDispatchCount = c.recoveryDispatchCount

theorem keptBut_persist {js : List JobId} (h : KeptBut (j :: js) w.view) :
    KeptBut js (w.persistJob j).view := by
  intro i c r hi hc hr
  by_cases same : i = j
  · subst same
    have here : w.view.core i = some c := by rwa [view_persistJob] at hc
    rw [row_persistJob here] at hr
    split at hr
    · cases hr; rfl
    · cases hr
  · rw [view_persistJob] at hc hr
    refine h i c r (by simp [same, hi]) hc ?_
    simp only [Act.apply, View.persisted, same, if_false] at hr
    split at hr
    · exact (Option.filter_eq_some_iff.mp hr).1
    · exact hr

theorem persistAll_follows {τ : Tok} {js : List JobId} (h : KeptBut js w.view) :
    Follows discipline τ w (Co.each js persistJob)
      fun r τ' w' => r = .ok () ∧ τ' = τ ∧ KeptBut [] w'.view := by
  induction js generalizing w with
  | nil => exact ⟨rfl, rfl, h⟩
  | cons i rest ih =>
    exact ⟨τ, ⟨_, .persist i, view_persistJob _ i⟩, ih (keptBut_persist h)⟩

theorem startup_follows :
    Follows discipline (first .startup w) w (startup cfg) (Ends cfg .startup) := by
  simp only [startup, first, Co.bind_eq]
  refine update_then (.enter .starting) .boot rfl (now_then fun t => world_then ?_)
  refine run_then (recoverAll_follows (w.setPhase .starting).jobs.nodup) ?_
    fun _ _ _ _ _ => trivial
  rintro w₁ τ report _ rfl
  refine world_then (run_then (persistAll_follows (τ := .boots [] .between) ?_) ?_
    fun _ _ _ _ _ => trivial)
  · intro j c r hj hc
    rw [view_core, Option.map_eq_some_iff] at hc
    obtain ⟨job, found, -⟩ := hc
    cases (Dict.get?_eq_none_iff.mpr hj).symm.trans found
  rintro w₂ τ _ _ ⟨-, rfl, kept⟩
  have serve (w : World) : Follows discipline (.boots [] .kept) w (update (·.setPhase .serving))
      (Ends cfg .startup) := ⟨.idle, ⟨_, .serve, rfl⟩, trivial⟩
  simp only [emit, Co.bind_eq, Co.bind_assoc, Co.pure_eq, Co.bind, build]
  refine uuid7_then (fun u _ => .bootKept fun j c r => kept j c r (by simp)) fun u _ _ =>
    now_then fun t => ?_
  refine emitDurable_then (σ := .boots [] .kept) (.note ?_) trivial (fun w₃ _ _ _ => ?_)
    fun _ _ _ _ => trivial
  · simp [Obs.Harmless, buildEvent, eventSystemStartup, lifecycleTypes]
  refine ask_then rfl fun heartbeat => ?_
  split
  · exact quiet_then (view_setHub _ _) (serve _)
  · exact serve _

end Recovery

section Others

variable {cfg : Settings} {w : World}

def Polling (τ : Tok) : Prop := ∃ accepting, τ = .polls accepting

theorem checkAutoAccept_follows {τ : Tok} (polls : Polling τ) (j : JobId) :
    Follows discipline τ w (checkAutoAccept cfg j) fun _ τ' _ => Polling τ' := by
  obtain ⟨accepting, rfl⟩ := polls
  simp only [checkAutoAccept, Co.bind_eq, Co.pure_eq]
  refine deref_then (fun job hj => ?_) fun _ => ⟨_, rfl⟩
  split
  · exact ⟨_, rfl⟩
  rename_i deliveredAt acceptable
  have delivered (c : Core) (hc : w.view.core j = some c) : c.status = .delivered := by
    simp only [view_core, hj, Option.map_some, Option.some.injEq] at hc
    unfold autoAcceptable at acceptable
    split at acceptable
    · rename_i h
      exact hc ▸ h.1
    · cases acceptable
  refine now_then fun t => ?_
  split
  · refine emit_then (σ := .polls (some j)) (fun e u he => .acceptEvent ?_ delivered) trivial
      (fun w₁ e _ _ _ => ?_) fun _ _ _ _ => ⟨_, rfl⟩
    · simp [he, eventHumanReviewed]
    refine update_then (.revise j fun c => { c with overrideType := some "auto_delivered" })
      .autoAccept (view_updateJob (fun _ => rfl) _ j) ?_
    exact ⟨_, ⟨_, .persist j, view_persistJob _ j⟩, _, rfl⟩
  · exact ⟨_, rfl⟩

theorem autoAcceptPoll_follows :
    Follows discipline (first .autoAccept w) w (autoAcceptPoll cfg) (Ends cfg .autoAccept) := by
  simp only [autoAcceptPoll, first, Co.bind_eq, Co.pure_eq]
  refine quiet_then rfl (world_then ?_)
  refine run_then (follows_each (Ω := fun τ _ => Polling τ) (Ξ := fun _ τ _ => Polling τ)
    ⟨none, rfl⟩ (fun j _ τ w polls => ?_) fun _ _ polls => polls) ?_ fun _ _ _ _ _ => trivial
  · refine follows_tryCatch ((checkAutoAccept_follows polls j).mono ?_)
    rintro (x | _) τ' w' polls'
    · exact polls'
    · exact polls'
  · intro w₁ τ _ _ _
    exact ⟨τ, ⟨_, .quiet, rfl⟩, trivial⟩

theorem changeHub_follows {target : HubState} {reason : String} :
    Follows discipline (first (.setHub target reason) w) w (changeHub cfg.hostname target reason)
      (Ends cfg (.setHub target reason)) := by
  have keeps : Keeps discipline (fun _ => True) .idle (changeHub cfg.hostname target reason) := by
    refine keeps_bind keeps_read fun w => ?_
    dsimp only
    split
    · refine keeps_bind (keeps_quiet fun w => view_setHub w target) fun _ => ?_
      refine keeps_tryCatch (F := fun _ => True) ?_ fun _ => keeps_ret ()
      exact keeps_bind (keeps_emit trivial (by simp [eventHubStateChange, lifecycleTypes])
        fun _ _ => trivial) fun _ => keeps_ret _
    · exact keeps_ret ()
  exact keeps.follows (fun _ _ _ => trivial) fun _ _ _ _ => trivial

theorem configure_follows {capabilities : Dict String Capability}
    {states : Dict String CapabilityState} {routes : List String} :
    Follows discipline (first (.configure capabilities states routes) w) w
      (update (·.configured capabilities states routes))
      (Ends cfg (.configure capabilities states routes)) :=
  ⟨.idle, ⟨_, .quiet, rfl⟩, trivial⟩

end Others

end Drnt.Orchestrator
