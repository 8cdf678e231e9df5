import Drnt.Orchestrator.Trial

/-! Overrides that are answered with an error, or fail on an unknown capability: when they
leave the job as it was. -/
namespace Drnt.Orchestrator

open Lib Lib.Coop Trial

section Rejected

/-- The durable events that were handed to the audit client. -/
def emitted (trace : List Obs) : List Event :=
  trace.filterMap fun
    | .attempted e => some e
    | _ => none

/-- The types of override that look for a capability to go on with. -/
def successorTypes : List String := ["redirect", "escalate"]

/-- The call answers with an error, or raises since the capability of its detail is unknown. -/
def OverrideRequest.Rejects (r : OverrideRequest) : Except Exc OverrideReply → Prop
  | .ok reply => reply.isError
  | .error e => e = .valueError ("Unknown capability_id for redirect: " ++ r.detail) ∧
      r.overrideType ∈ successorTypes ∧ modelOf? r.detail = none

/-- A rejected override leaves the record and the row of the job, and has emitted nothing,
whatever its requests are answered. -/
def Atomic (cfg : Settings) (w : World) (j : JobId) (r : OverrideRequest) : Prop :=
  ∀ res w', (overrideJob cfg j r).Outcome (fun _ _ _ => True) w res w' → r.Rejects res →
    w'.job? j = w.job? j ∧ w'.row? j = w.row? j ∧ emitted w'.trace = emitted w.trace

/-- The guards refuse the call, or it is one that no branch rejects after the guard is set. -/
def OverrideRequest.Clean (w : World) (j : JobId) (r : OverrideRequest) : Prop :=
  ∀ job, w.job? j = some job → overrideRefusal job = none →
    (job.status = .proposalReady → r.overrideType ∈ ["cancel", "redirect", "escalate"]) ∧
    (r.overrideType ∈ successorTypes → modelOf? r.detail ≠ none)

variable {cfg : Settings} {w w' : World} {j : JobId} {r : OverrideRequest} {status : JobStatus}
  {admits : World → (q : Req) → Ans q → Prop}

section Clean

/-- A branch that has set its guard before it looks further does not answer with an error. -/
theorem branch_returns (type : r.overrideType ∈ ["cancel", "redirect", "escalate"]) :
    (overrideBranch cfg j r status).Returns fun reply => reply.isError = false := by
  simp only [List.mem_cons, List.not_mem_nil, or_false] at type
  unfold overrideBranch
  rcases type with type | type | type
  · rw [if_pos type]
    refine Co.returns_bind (Co.returns_any _) fun e _ => ?_
    split
    · exact Co.returns_bind (Co.returns_any _) fun _ _ => rfl
    · exact Co.returns_bind (Co.returns_any _) fun _ _ => rfl
  · rw [if_neg (by simp [type]), if_pos type]
    refine Co.returns_bind (Co.returns_any _) fun e _ => ?_
    split
    · refine Co.returns_bind (Co.returns_any _) fun _ _ => ?_
      exact Co.returns_bind (Co.returns_any _) fun _ _ => rfl
    · refine Co.returns_bind (Co.returns_any _) fun _ _ => ?_
      exact Co.returns_bind (Co.returns_any _) fun _ _ => rfl
  · rw [if_neg (by simp [type]), if_neg (by simp [type]), if_neg (by simp [type]), if_pos type]
    refine Co.returns_bind (Co.returns_any _) fun e _ => ?_
    refine Co.returns_bind (Co.returns_any _) fun _ _ => ?_
    exact Co.returns_bind (Co.returns_any _) fun _ _ => rfl

/-- What follows a branch keeps its reply. -/
theorem finished_returns {branch : Task OverrideReply} {P : OverrideReply → Prop}
    (h : branch.Returns P) :
    (do
      let reply ← branch
      if !reply.isError then
        finishOverride cfg j r.overrideType
      return reply : Task OverrideReply).Returns P := by
  refine Co.returns_bind h fun reply ok => ?_
  split
  · exact Co.returns_bind (Co.returns_any _) fun _ _ => ok
  · exact ok

theorem run_returns (type : r.overrideType ∈ ["cancel", "redirect", "escalate"]) :
    (runOverride cfg j r status).Returns fun reply => reply.isError = false := by
  have branch : (overrideBranch cfg j r status).Returns fun reply => reply.isError = false :=
    branch_returns type
  unfold runOverride
  rw [if_pos type]
  refine Co.returns_bind (Co.returns_any _) fun _ _ => ?_
  split
  · exact Co.returns_bind (Co.returns_any _) fun _ _ => finished_returns branch
  · exact finished_returns branch

/-- The other types are looked at before anything is done, unless the job is a proposal. -/
theorem other_rejected {res : Except Exc OverrideReply} (held : status ≠ .proposalReady)
    (type : r.overrideType ∉ ["cancel", "redirect", "escalate"])
    (h : (runOverride cfg j r status).Outcome admits w res w') (rejects : r.Rejects res) :
    w' = w := by
  cases res with
  | error e =>
    simp only [List.mem_cons, List.not_mem_nil, or_false, not_or] at type
    have successor := rejects.2.1
    simp [successorTypes, type] at successor
  | ok reply =>
    simp only [List.mem_cons, List.not_mem_nil, or_false, not_or] at type
    unfold runOverride at h
    rw [if_neg (by simp [type]), if_neg held] at h
    simp only [overrideBranch, if_neg type.1, if_neg type.2.1, if_neg type.2.2] at h
    split at h
    · have modifies {modified : String} {delivered : Bool} :
          (modifyResult cfg j r modified delivered).Returns fun reply => reply.isError = false := by
        iterate 6 refine Co.returns_bind (Co.returns_any _) fun _ _ => ?_
        refine Co.returns_bind (Co.returns_any _) fun _ _ => ?_
        split
        · iterate 2 refine Co.returns_bind (Co.returns_any _) fun _ _ => ?_
          exact Co.returns_bind (Co.returns_any _) fun _ _ => rfl
        · exact rfl
      cases hm : r.modifiedResult with
      | none =>
        simp only [overrideModify, hm] at h
        exact h.2
      | some modified =>
        simp only [overrideModify, hm] at h
        split at h
        · exact h.2
        · exact h.2
        split at h
        · have kept := (finished_returns modifies).outcome h
          rw [OverrideRequest.Rejects, kept] at rejects
          cases rejects
        · exact h.2
    · exact h.2

theorem atomic_of_clean (clean : r.Clean w j) : Atomic cfg w j r := by
  intro res w' out rejects
  replace out := outcome_world.mp out
  cases hj : w.job? j with
  | none =>
    rw [hj] at out
    cases out.1
    cases rejects
  | some job =>
    simp only [hj] at out
    cases refusal : overrideRefusal job with
    | some reason =>
      rw [refusal] at out
      cases out.1
      cases rejects
    | none =>
      simp only [refusal] at out
      obtain ⟨proposal, known⟩ := clean job hj refusal
      by_cases type : r.overrideType ∈ ["cancel", "redirect", "escalate"]
      · cases res with
        | ok reply =>
          have := (run_returns type).outcome out
          rw [OverrideRequest.Rejects, this] at rejects
          cases rejects
        | error e => exact absurd rejects.2.2 (known rejects.2.1)
      · have same := other_rejected (fun ready => type (proposal ready)) type out rejects
        subst same
        exact ⟨hj ▸ rfl, rfl, rfl⟩

end Clean

section Unclean

/-- Any answers to the requests. -/
abbrev anyhow : World → (q : Req) → Ans q → Prop := fun _ _ _ => True

/-- A guard that is set for a type which the branches then reject. -/
theorem reserve_rejects (cfg : Settings) (w : World) (j : JobId)
    (type : r.overrideType ∉ ["cancel", "redirect", "escalate"]) :
    ∃ reason w', (runOverride cfg j r .proposalReady).Outcome anyhow w (.ok (.error reason)) w' ∧
      ∀ job, w.job? j = some job →
        w'.job? j = some { job with overrideType := some r.overrideType } := by
  have rejected : ∃ reason, overrideBranch cfg j r .proposalReady = return .error reason := by
    simp only [List.mem_cons, List.not_mem_nil, or_false, not_or] at type
    simp only [overrideBranch, if_neg type.1, if_neg type.2.1, if_neg type.2.2, overrideModify]
    split
    · split
      · exact ⟨_, rfl⟩
      · exact ⟨_, rfl⟩
      · exact ⟨_, if_neg (by simp)⟩
    · exact ⟨_, rfl⟩
  obtain ⟨reason, branch⟩ := rejected
  unfold runOverride
  rw [if_neg type, if_pos rfl, branch]
  refine ⟨reason, _, ⟨rfl, rfl⟩, fun job hj => ?_⟩
  simp only [World.job?] at hj
  simp [World.job?, Dict.get?_modify_self, hj]

theorem proposal_rejected {job : Job} (hj : w.job? j = some job) (open_ : overrideRefusal job = none)
    (ready : job.status = .proposalReady)
    (type : r.overrideType ∉ ["cancel", "redirect", "escalate"]) : ¬ Atomic cfg w j r := by
  intro atomic
  obtain ⟨reason, w', out, reserved⟩ := reserve_rejects cfg w j type
  have unset : job.overrideType.isSome = false := (open_of_override open_).2.2.2
  have whole : (overrideJob cfg j r).Outcome anyhow w (.ok (.error reason)) w' := by
    refine outcome_world.mpr ?_
    simp only [hj, open_, ready]
    exact out
  have same := (atomic _ _ whole rfl).1
  rw [reserved job hj, hj] at same
  rw [← Option.some.inj same] at unset
  cases unset

/-- How many durable events have been emitted. -/
def emissions (w : World) : Nat := (emitted w.trace).length

theorem emit_outcome (draft : Draft) (w : World) : ∃ e w', (emit draft).Outcome anyhow w (.ok e) w' ∧
    w'.jobs = w.jobs ∧ emissions w' = emissions w + 1 := by
  refine ⟨_, _, ⟨uuid 0, trivial, noon, trivial, (.ok true : Except Exc Bool), trivial, rfl, rfl⟩,
    rfl, ?_⟩
  simp [emissions, emitted]

theorem fail_outcome (type cls detail : String) (here : (w.job? j).isSome) :
    ∃ w', (failOverridden j type cls detail).Outcome anyhow w (.ok ()) w' ∧
      emissions w ≤ emissions w' := by
  obtain ⟨job, hj⟩ := Option.isSome_iff_exists.mp here
  obtain ⟨e, w₁, out, jobs, more⟩ :=
    emit_outcome (eventJobFailed j (.text cls) (.text detail) (.textOrNull job.governingCapabilityId)) w
  refine ⟨_, Co.outcome_bind.mpr (.inl ⟨job, w, ?_, Co.outcome_bind.mpr (.inl ⟨e, w₁, out, rfl, rfl⟩)⟩), ?_⟩
  · refine outcome_world.mpr ?_
    rw [hj]
    exact ⟨rfl, rfl⟩
  · simp only [emissions, World.updateJob_trace] at *
    omega

theorem spawn_unknown (unknown : modelOf? r.detail = none) :
    (spawnSuccessor j r.detail).Outcome anyhow w
      (.error (.valueError ("Unknown capability_id for redirect: " ++ r.detail)))
      (w.issue (uuid 0)) := by
  refine ⟨uuid 0, trivial, noon, trivial, ?_⟩
  rw [unknown]
  exact ⟨rfl, rfl⟩

/-- The branches of redirect and escalate announce the override before they look for the
capability. -/
theorem branch_unknown (cfg : Settings) (status : JobStatus) (type : r.overrideType ∈ successorTypes) (unknown : modelOf? r.detail = none)
    (here : (w.job? j).isSome) :
    ∃ w', (overrideBranch cfg j r status).Outcome anyhow w
        (.error (.valueError ("Unknown capability_id for redirect: " ++ r.detail))) w' ∧
      emissions w < emissions w' := by
  have raised {β : Type} {w₁ : World} {f : JobId → Task β} :
      ((spawnSuccessor j r.detail).bind f).Outcome anyhow w₁
        (.error (.valueError ("Unknown capability_id for redirect: " ++ r.detail)))
        (w₁.issue (uuid 0)) :=
    Co.outcome_bind.mpr (.inr ⟨_, spawn_unknown unknown, rfl⟩)
  simp only [successorTypes, List.mem_cons, List.not_mem_nil, or_false] at type
  unfold overrideBranch
  rcases type with type | type
  · rw [if_neg (by simp [type]), if_pos type]
    obtain ⟨e, w₁, out, jobs, more⟩ :=
      emit_outcome (eventHumanOverride j "redirect" r.target r.detail r.device) w
    by_cases early : status.preDelivery = true
    · obtain ⟨w₂, failed, grown⟩ := fail_outcome (j := j) "redirect" "override_redirect"
        ("Redirected to " ++ r.detail) (w := w₁) (by rw [World.job?, jobs]; exact here)
      refine ⟨w₂.issue (uuid 0), Co.outcome_bind.mpr (.inl ⟨e, w₁, out, ?_⟩), ?_⟩
      · rw [if_pos early]
        exact Co.outcome_bind.mpr (.inl ⟨(), w₂, failed, raised⟩)
      · simp only [emissions, World.issue_trace] at *
        omega
    · refine ⟨w₁.issue (uuid 0), Co.outcome_bind.mpr (.inl ⟨e, w₁, out, ?_⟩), ?_⟩
      · rw [if_neg early]
        exact raised
      · simp only [emissions, World.issue_trace] at *
        omega
  · rw [if_neg (by simp [type]), if_neg (by simp [type]), if_neg (by simp [type]), if_pos type]
    obtain ⟨e, w₁, out, jobs, more⟩ :=
      emit_outcome (eventHumanOverride j "escalate" r.target r.detail r.device) w
    refine ⟨w₁.issue (uuid 0), Co.outcome_bind.mpr (.inl ⟨e, w₁, out, raised⟩), ?_⟩
    simp only [emissions, World.issue_trace] at *
    omega

/-- Setting the guard neither emits anything nor loses the job. -/
theorem reserve_outcome (type : String) (w : World) : ∃ w',
    (reserveOverride j type).Outcome anyhow w (.ok ()) w' ∧ w'.trace = w.trace ∧
      (w'.job? j).isSome = (w.job? j).isSome := by
  refine ⟨_, ⟨rfl, rfl⟩, rfl, ?_⟩
  simp [World.job?, Dict.get?_modify_self]

theorem unknown_rejected {job : Job} (hj : w.job? j = some job) (open_ : overrideRefusal job = none)
    (type : r.overrideType ∈ successorTypes) (unknown : modelOf? r.detail = none) :
    ¬ Atomic cfg w j r := by
  intro atomic
  have raised (w₀ : World) (status : JobStatus) (here : (w₀.job? j).isSome) : ∃ w', (do
      let reply ← overrideBranch cfg j r status
      if !reply.isError then
        finishOverride cfg j r.overrideType
      return reply : Task OverrideReply).Outcome anyhow w₀
        (.error (.valueError ("Unknown capability_id for redirect: " ++ r.detail))) w' ∧
      emissions w₀ < emissions w' := by
    obtain ⟨w', out, more⟩ := branch_unknown cfg status type unknown here
    exact ⟨w', Co.outcome_bind.mpr (.inr ⟨_, out, rfl⟩), more⟩
  have guarded : r.overrideType ∈ ["cancel", "redirect", "escalate"] := by
    simp only [successorTypes, List.mem_cons, List.not_mem_nil, or_false] at type
    rcases type with type | type <;> simp [type]
  have here : (w.job? j).isSome = true := by rw [hj]; rfl
  obtain ⟨w', out, more⟩ : ∃ w', (runOverride cfg j r job.status).Outcome anyhow w
      (.error (.valueError ("Unknown capability_id for redirect: " ++ r.detail))) w' ∧
      emissions w < emissions w' := by
    unfold runOverride
    rw [if_pos guarded]
    obtain ⟨w₁, out₁, trace₁, here₁⟩ := reserve_outcome (j := j) r.overrideType w
    by_cases ready : job.status = .proposalReady
    · rw [if_pos ready]
      obtain ⟨w₂, out₂, trace₂, here₂⟩ := reserve_outcome (j := j) r.overrideType w₁
      obtain ⟨w₃, out₃, more⟩ := raised w₂ job.status (by rw [here₂, here₁, here])
      refine ⟨w₃, Co.outcome_bind.mpr (.inl ⟨(), w₁, out₁, Co.outcome_bind.mpr
        (.inl ⟨(), w₂, out₂, out₃⟩)⟩), ?_⟩
      rwa [emissions, trace₂, trace₁] at more
    · rw [if_neg ready]
      obtain ⟨w₃, out₃, more⟩ := raised w₁ job.status (by rw [here₁, here])
      refine ⟨w₃, Co.outcome_bind.mpr (.inl ⟨(), w₁, out₁, out₃⟩), ?_⟩
      rwa [emissions, trace₁] at more
  have whole : (overrideJob cfg j r).Outcome anyhow w
      (.error (.valueError ("Unknown capability_id for redirect: " ++ r.detail))) w' := by
    refine outcome_world.mpr ?_
    simp only [hj, open_]
    exact out
  have same := (atomic _ _ whole ⟨rfl, type, unknown⟩).2.2
  rw [emissions, emissions, same] at more
  exact Nat.lt_irrefl _ more

theorem atomic_iff_clean : Atomic cfg w j r ↔ r.Clean w j := by
  constructor
  · intro atomic job hj open_
    constructor
    · intro ready
      by_contra type
      exact proposal_rejected hj open_ ready type atomic
    · intro type unknown
      exact unknown_rejected hj open_ type unknown atomic
  · exact atomic_of_clean

/-- An override of an unknown type is answered with an error, and yet a proposal keeps its
guard: no later review or override is let through. -/
theorem proposal_poisoned : ∃ c : Run checked,
    Reach (orchestrator checked) (NoCrash checked) (.boot _ (World.initial false)) c ∧
      ¬ Atomic checked c.state (uuid 2) ⟨"pause", "", "", "phone", none⟩ := by
  obtain ⟨c, run, seen⟩ := reached (guards fun _ _ => true) (fresh checked false)
    [.start .startup, .finish 0, .start (grant "pre_delivery"), .start (.submit (request none)),
      .finish 2, .start (.worker (uuid 2)), .finish 3]
    (fun c => (c.state.job? (uuid 2)).any fun job =>
      job.status = .proposalReady && (overrideRefusal job).isNone) (by decide +kernel)
  obtain ⟨job, hj, held⟩ := (Option.any_eq_true _ _).mp seen
  simp only [Bool.and_eq_true, decide_eq_true_eq, Option.isNone_iff_eq_none] at held
  exact ⟨c, run, proposal_rejected hj held.2 held.1 (by simp)⟩

end Unclean

end Rejected

end Drnt.Orchestrator
