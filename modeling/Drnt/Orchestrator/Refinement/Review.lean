import Drnt.Orchestrator.Refinement.Steps

/-! The review handler under the discipline. -/
namespace Drnt.Orchestrator

open Lib Lib.Coop

section Parts

variable {j : JobId} {r : ReviewRequest} {device : String} {w : World} {d : Decision}
  {p : DecisionPhase} {succ : Successor}

theorem reviewEnds_decided {res : Except Exc Reply} {v : View} (hp : p ≠ .accepted)
    (ends : (∃ record, p = .concluded record ∧ res = .ok record.outcome) ∨
      p = .aborted ∧ v.Lost ∨ p = .reserved ∧ v.Unwritten ∧ r.decision = "edit") :
    ReviewEnds j r res (.decides j d p succ) v where
  refused := (by simp)
  idle := (by simp)
  decided d' p' succ' h := by
    cases h
    exact ⟨hp, ends⟩
  deferred := (by simp)
  live := (by simp)
  repeats := (by simp)

theorem reviewEnds_lost {x : Exc} (lost : w.view.Lost) :
    ReviewEnds j r (.error x) (.decides j d .aborted succ) w.view :=
  reviewEnds_decided (by simp) (.inr (.inl ⟨rfl, lost⟩))

theorem reviewEnds_deferred {res : Except Exc Reply} {v : View} {payload : ReviewPayload}
    (ends : (∃ record, p = .concluded record ∧ res = .ok record.outcome) ∨
      p = .announced ∧ v.Lost) : ReviewEnds j r res (.defers payload p) v where
  refused := (by simp)
  idle := (by simp)
  decided := (by simp)
  deferred p' phase h := by
    cases h
    exact ends
  live := (by simp)
  repeats := (by simp)

theorem reviewEnds_idle {reply : Reply} {v : View} (refuses : reply.refuses) :
    ReviewEnds j r (.ok reply) .idle v where
  refused := (by simp)
  idle _ := ⟨reply, rfl, refuses⟩
  decided := (by simp)
  deferred := (by simp)
  live := (by simp)
  repeats := (by simp)

theorem reviewEnds_refused {reply : Reply} {v : View} (refuses : reply.refuses)
    (conflict : r.wellFormed → reply.statusCode = 409) : ReviewEnds j r (.ok reply) .refused v where
  refused _ := ⟨reply, rfl, refuses, conflict⟩
  idle := (by simp)
  decided := (by simp)
  deferred := (by simp)
  live := (by simp)
  repeats := (by simp)

/-- The human.reviewed event of a call: it is recorded under the key of the call when it is
sent, and lost or answered after. -/
theorem emitDecision_then {β : Type} {τ σ σ' : Tok} {draft : Draft} {k : Unit → Task β}
    {Φ : Except Exc β → Tok → World → Prop}
    (type : draft.eventType = "human.reviewed")
    (announce : ∀ e v, Allowed τ v (.observe (.reviewed r.decisionIdempotencyKey e)) σ)
    (parks : σ.parks) (drop : ∀ e v, Allowed σ v (.observe (.answered e .lost)) σ')
    (next : ∀ w', w.view.Grows w'.view → Follows discipline σ w' (k ()) Φ)
    (lost : ∀ w' x, w'.view.Lost → Φ (.error x) σ' w') :
    Follows discipline τ w ((emitDecision r draft).bind k) Φ := by
  simp only [emitDecision, Co.bind_eq, Co.bind_assoc, Co.pure_eq, Co.bind]
  refine build_then fun u t => ?_
  have announced := announce (buildEvent draft u t) (w.issue u).view
  have grows : w.view.Grows (w.issue u).view := (Allowed.mint (τ := τ) u).grows
  refine update_then _ announced rfl ?_
  refine emitDurable_else (.note ?_) parks (drop _) (fun w' _ hw _ => ?_)
    fun w' x _ hl => lost w' x hl
  · simp [Obs.Harmless, buildEvent, type, lifecycleTypes]
  · exact next w' ((grows.trans announced.grows).trans hw)

/-- The event of a terminal decision. -/
theorem announceReview_then {β : Type} {draft : Draft} {k : Unit → Task β}
    {Φ : Except Exc β → Tok → World → Prop} (type : draft.eventType = "human.reviewed")
    (here : ∃ job, w.job? j = some job)
    (next : ∀ w', (∃ job, w'.job? j = some job) →
      Follows discipline (.decides j (.review (r.payload j)) .announced succ) w' (k ()) Φ)
    (lost : ∀ w' x, w'.view.Lost →
      Φ (.error x) (.decides j (.review (r.payload j)) .aborted succ) w') :
    Follows discipline (.decides j (.review (r.payload j)) .reserved succ) w
      ((emitDecision r draft).bind k) Φ :=
  emitDecision_then type (fun _ _ => .announceReview) (by trivial)
    (fun _ _ => .abort (by simp)) (fun w' hw => next w' (in_memory_grown hw here)) lost

/-- Storing the outcome is the last write of a terminal decision. -/
theorem storeOutcome_follows {reply : Reply} (ok : reply.statusCode = 200)
    (ready : p = .settled ∨
      p = .ending ∧ r.decision = "decline_to_act" ∧ w.view.Told "job.closed_no_action" j) :
    Follows discipline (.decides j (.review (r.payload j)) p succ) w (storeOutcome j r reply)
      fun res τ w' => ReviewEnds j r res τ w'.view := by
  refine ⟨.decides j (.review (r.payload j)) (.concluded ⟨r.payload j, reply, true⟩) succ,
    ⟨.conclude r.decisionIdempotencyKey ⟨r.payload j, reply, true⟩, ?_,
      view_storeReview w _ _⟩, ?_⟩
  · exact .conclude (p := r.payload j) (r := ⟨r.payload j, reply, true⟩) rfl ok ready
  · exact reviewEnds_decided (by simp) (.inl ⟨_, rfl, rfl⟩)

theorem reserveReview_then {β : Type} {decision : String} {k : Unit → Task β}
    {Φ : Except Exc β → Tok → World → Prop} (hd : r.decision = decision)
    (open_ : decision ≠ "decline_to_act") (here : ∃ job, w.job? j = some job)
    (next : ∀ w', (∃ job, w'.job? j = some job) →
      Follows discipline (.decides j (.review (r.payload j)) .reserved .none) w' (k ()) Φ) :
    Follows discipline (.decides j (.review (r.payload j)) .accepted .none) w
      ((reserveReview j decision).bind k) Φ := by
  have run : Follows discipline (.decides j (.review (r.payload j)) .accepted .none) w
      (reserveReview j decision) fun res τ _ =>
        res = .ok () ∧ τ = .decides j (.review (r.payload j)) .reserved .none :=
    ⟨_, ⟨_, .reserve, view_updateJob (fun job => by
        simp [Decision.reserve, ReviewRequest.payload, hd, open_, Job.core, Job.sourceKey?]) _ j⟩,
      _, ⟨_, .persist j, view_persistJob _ j⟩, rfl, rfl⟩
  refine run_then run ?_ fun _ _ _ _ h => by cases h.1
  rintro w₁ τ _ hw ⟨-, rfl⟩
  exact next w₁ (in_memory_grown hw here)

/-- The update that ends a terminal decision, persisted. -/
theorem settled_then {β : Type} {f : Job → Job} (error : Option (List Json)) {k : Unit → Task β}
    {Φ : Except Exc β → Tok → World → Prop}
    (told : w.view.Told (Decision.review (r.payload j)).endType j)
    (ends : ActsAs f (.closes (Decision.review (r.payload j)).endStatus error))
    (here : ∃ job, w.job? j = some job)
    (next : ∀ w', (∃ job, w'.job? j = some job) →
      Follows discipline (.decides j (.review (r.payload j)) .settled succ) w' (k ()) Φ) :
    Follows discipline (.decides j (.review (r.payload j)) .ending succ) w
      ((updateJob j f).bind fun _ => (persistJob j).bind k) Φ := by
  have run : Follows discipline (.decides j (.review (r.payload j)) .ending succ) w
      ((updateJob j f).bind fun _ => persistJob j) fun res τ _ =>
        res = .ok () ∧ τ = .decides j (.review (r.payload j)) .settled succ :=
    ⟨_, ⟨_, .settle told (.inl rfl), view_updateJob ends _ j⟩,
      _, ⟨_, .persist j, view_persistJob _ j⟩, rfl, rfl⟩
  rw [← Co.bind_assoc]
  refine run_then run ?_ fun _ _ _ _ h => by cases h.1
  rintro w₁ τ _ hw ⟨-, rfl⟩
  exact next w₁ (in_memory_grown hw here)

end Parts

section Branches

variable {j : JobId} {r : ReviewRequest} {device : String} {w : World}

theorem reviewApprove_follows (hd : r.decision = "approve") (here : ∃ job, w.job? j = some job) :
    Follows discipline (.decides j (.review (r.payload j)) .accepted .none) w
      (reviewApprove j r device) fun res τ w' => ReviewEnds j r res τ w'.view := by
  have endStatus : (Decision.review (r.payload j)).endStatus = .delivered := by
    simp [Decision.endStatus, Decision.reviewEnd, ReviewRequest.payload, hd]
  simp only [reviewApprove, emitReviewed, Co.bind_eq]
  refine reserveReview_then hd (by simp) here fun w₁ here₁ => ?_
  refine announceReview_then (by simp [eventHumanReviewed]) here₁ (fun w₂ here₂ => ?_)
    fun _ _ => reviewEnds_lost
  refine endEvent_then ?_ rfl (fun w₃ e hw₃ told => ?_) fun _ _ => reviewEnds_lost
  · simp [eventJobDelivered, Decision.endType, endStatus, JobStatus.value]
  refine now_then fun t => settled_then none told (fun job => ?_)
    (in_memory_grown hw₃ here₂) fun w₄ here₄ => ?_
  · rw [endStatus]; rfl
  exact derefHere_then here₄ fun job _ => storeOutcome_follows rfl (.inl rfl)

theorem reviewEdit_follows {cfg : Settings} {modified : String} (hd : r.decision = "edit")
    (here : ∃ job, w.job? j = some job) :
    Follows discipline (.decides j (.review (r.payload j)) .accepted .none) w
      (reviewEdit j r device cfg modified) fun res τ w' => ReviewEnds j r res τ w'.view := by
  have endStatus : (Decision.review (r.payload j)).endStatus = .delivered := by
    simp [Decision.endStatus, Decision.reviewEnd, ReviewRequest.payload, hd]
  simp only [reviewEdit, Co.bind_eq]
  refine reserveReview_then hd (by simp) here fun w₁ here₁ => ?_
  refine uuid7_then (fun u _ => .mint u) fun u _ _ => ?_
  refine keeps_then (keeps_writeResult (E := fun w => w.view.Unwritten) (by trivial) _ _
    fun _ h => h) (fun w₂ _ hw₂ => ?_)
    fun _ _ _ hu => reviewEnds_decided (by simp) (.inr (.inr ⟨rfl, hu, hd⟩))
  have here₂ : ∃ job, w₂.job? j = some job :=
    in_memory_grown (w := w₁.issue u) hw₂ here₁
  refine derefHere_then here₂ fun job _ => ?_
  refine announceReview_then (by simp [eventHumanReviewed]) here₂ (fun w₃ here₃ => ?_)
    fun _ _ => reviewEnds_lost
  refine endEvent_then ?_ rfl (fun w₄ e hw₄ told => ?_) fun _ _ => reviewEnds_lost
  · simp [eventJobDelivered, Decision.endType, endStatus, JobStatus.value]
  refine now_then fun t => settled_then none told (fun job => ?_)
    (in_memory_grown hw₄ here₃) fun w₅ here₅ => ?_
  · rw [endStatus]; rfl
  exact storeOutcome_follows rfl (.inl rfl)

theorem reviewReject_follows (hd : r.decision = "reject") (here : ∃ job, w.job? j = some job) :
    Follows discipline (.decides j (.review (r.payload j)) .accepted .none) w
      (reviewReject j r device) fun res τ w' => ReviewEnds j r res τ w'.view := by
  have endStatus : (Decision.review (r.payload j)).endStatus = .failed := by
    simp [Decision.endStatus, Decision.reviewEnd, ReviewRequest.payload, hd]
  simp only [reviewReject, emitReviewed, Co.bind_eq]
  refine reserveReview_then hd (by simp) here fun w₁ here₁ => ?_
  refine announceReview_then (by simp [eventHumanReviewed]) here₁ (fun w₂ here₂ => ?_)
    fun _ _ => reviewEnds_lost
  refine derefHere_then here₂ fun job _ => ?_
  refine endEvent_then ?_ rfl (fun w₃ e hw₃ told => ?_) fun _ _ => reviewEnds_lost
  · simp [eventJobFailed, Decision.endType, endStatus, JobStatus.value]
  refine settled_then (some [.text "review_reject"]) told (fun job => ?_)
    (in_memory_grown hw₃ here₂) fun w₄ here₄ => ?_
  · rw [endStatus]; rfl
  exact derefHere_then here₄ fun job _ => storeOutcome_follows rfl (.inl rfl)

theorem reviewDeclineToAct_follows (hd : r.decision = "decline_to_act")
    (here : ∃ job, w.job? j = some job) :
    Follows discipline (.decides j (.review (r.payload j)) .accepted .none) w
      (reviewDeclineToAct j r device) fun res τ w' => ReviewEnds j r res τ w'.view := by
  have endType : (Decision.review (r.payload j)).endType = "job.closed_no_action" := by
    simp [Decision.endType, Decision.endStatus, Decision.reviewEnd, ReviewRequest.payload, hd,
      JobStatus.value]
  simp only [reviewDeclineToAct, emitReviewed, Co.bind_eq]
  have run : Follows discipline (.decides j (.review (r.payload j)) .accepted .none) w
      ((updateJob j fun job => { job with
        reviewDecision := some "decline_to_act", status := .closedNoAction }).bind fun _ =>
          persistJob j) fun res τ _ =>
        res = .ok () ∧ τ = .decides j (.review (r.payload j)) .reserved .none :=
    ⟨_, ⟨_, .reserve, view_updateJob (fun job => by
        simp [Decision.reserve, ReviewRequest.payload, hd, Job.core, Job.sourceKey?]) _ j⟩,
      _, ⟨_, .persist j, view_persistJob _ j⟩, rfl, rfl⟩
  rw [← Co.bind_assoc]
  refine run_then run ?_ fun _ _ _ _ h => by cases h.1
  rintro w₁ τ _ hw ⟨-, rfl⟩
  refine announceReview_then (by simp [eventHumanReviewed]) (in_memory_grown hw here)
    (fun w₂ here₂ => ?_) fun _ _ => reviewEnds_lost
  refine derefHere_then here₂ fun job _ => ?_
  refine endEvent_then ?_ rfl (fun w₃ e hw₃ told => ?_) fun _ _ => reviewEnds_lost
  · simp [eventJobClosedNoAction, endType]
  rw [endType] at told
  refine derefHere_then (in_memory_grown hw₃ here₂) fun job _ => ?_
  exact storeOutcome_follows rfl (.inr ⟨rfl, hd, told⟩)

/-- A deferral stores its outcome and changes nothing else. -/
theorem reviewDefer_follows (here : ∃ job, w.job? j = some job) :
    Follows discipline (.defers (r.payload j) .accepted) w (reviewDefer j r device)
      fun res τ w' => ReviewEnds j r res τ w'.view := by
  simp only [reviewDefer, emitReviewed, Co.bind_eq]
  refine emitDecision_then (by simp [eventHumanReviewed])
    (fun _ _ => .announceDefer (p := r.payload j)) (by trivial)
    (fun e v => .note (harmless_answered e _)) (fun w₁ hw => ?_)
    fun _ _ hl => reviewEnds_deferred (.inr ⟨rfl, hl⟩)
  refine derefHere_then (in_memory_grown hw here) fun job _ => ?_
  let record : ReviewIdempotencyRecord :=
    ⟨r.payload j, decidedReply "deferred" "defer" j job, true⟩
  exact update_then (.conclude r.decisionIdempotencyKey record)
    (.defer (p := r.payload j) (r := record) rfl rfl) (view_storeReview _ _ _)
    (reviewEnds_deferred (.inl ⟨record, rfl, rfl⟩))

end Branches

section Handler

variable {cfg : Settings} {j : JobId} {r : ReviewRequest} {device : String} {w : World}

theorem reviewBranch_follows (here : ∃ job, w.job? j = some job)
    (terminal : r.decision ∈ terminalReviewDecisions) :
    Follows discipline (.decides j (.review (r.payload j)) .accepted .none) w
      (reviewBranch j r device cfg) fun res τ w' => ReviewEnds j r res τ w'.view := by
  unfold reviewBranch
  split
  · exact reviewApprove_follows ‹_› here
  split
  · exact reviewEdit_follows ‹_› here
  split
  · exact reviewReject_follows ‹_› here
  split
  · rename_i hd
    simp [hd, terminalReviewDecisions] at terminal
  split
  · exact reviewDeclineToAct_follows ‹_› here
  · simp_all [terminalReviewDecisions]

/-- A decision that is not terminal defers, or is unknown. -/
theorem reviewBranch_open (here : ∃ job, w.job? j = some job)
    (open_ : r.decision ∉ terminalReviewDecisions) :
    Follows discipline (if r.decision = "defer" then .defers (r.payload j) .accepted else .idle)
      w (reviewBranch j r device cfg) fun res τ w' => ReviewEnds j r res τ w'.view := by
  simp only [terminalReviewDecisions, List.mem_cons, List.not_mem_nil, or_false, not_or] at open_
  simp only [reviewBranch, open_, if_false]
  split
  · exact reviewDefer_follows here
  · exact reviewEnds_idle (by simp [Reply.refuses, unknownDecisionReply])

theorem reviewRefusal_refuses {job : Job} {reply : Reply}
    (h : reviewRefusal job r = some reply) : reply.refuses := by
  unfold reviewRefusal at h
  split at h
  · cases h; simp [Reply.refuses, wrongStatusReply]
  split at h
  · cases h; simp [Reply.refuses, wrongStatusReply]
  split at h
  · cases h; simp [Reply.refuses, staleReply]
  split at h
  · split at h
    · cases h; simp [Reply.refuses, modifiedResultRequiredReply]
    · cases h
  · split at h
    · cases h; simp [Reply.refuses, modifiedResultNotAllowedReply]
    · cases h

/-- A refusal of a well-formed review is a conflict. -/
theorem reviewRefusal_conflict {job : Job} {reply : Reply} (h : reviewRefusal job r = some reply)
    (wf : r.wellFormed) : reply.statusCode = 409 := by
  unfold reviewRefusal at h
  unfold ReviewRequest.wellFormed at wf
  split at h
  · cases h; rfl
  split at h
  · cases h; rfl
  split at h
  · cases h; rfl
  split at h
  · rw [if_pos ‹_›] at wf
    split at h
    · simp_all
    · cases h
  · rw [if_neg ‹_›] at wf
    split at h
    · simp_all
    · cases h

theorem reviewJob_follows :
    Follows discipline (first (.review j r device) w) w (reviewJob j r device cfg)
      (Ends cfg (.review j r device)) := by
  simp only [reviewJob, first, Co.bind_eq, Co.pure_eq]
  refine world_then ?_
  cases hk : w.reviewRecords.get? r.decisionIdempotencyKey with
  | some record =>
    by_cases same : record.payloadIdentity = r.payload j
    · simp only [if_pos same]
      refine ⟨(by simp), (by simp), (by simp), (by simp), (by simp), fun record' h => ?_⟩
      cases h
      simp [replayReply, same]
    · simp only [if_neg same]
      refine reviewEnds_refused ?_ fun _ => ?_ <;>
        simp [Reply.refuses, replayReply, same, keyConflictReply]
  | none =>
    cases hj : w.job? j with
    | none => exact reviewEnds_idle (by simp [Reply.refuses, jobNotFoundReply])
    | some job =>
      dsimp only
      cases hr : reviewRefusal job r with
      | some reply =>
        have : r.reserves job = false := by simp [ReviewRequest.reserves, hr]
        rw [this]
        exact reviewEnds_refused (reviewRefusal_refuses hr) (reviewRefusal_conflict hr)
      | none =>
        by_cases terminal : r.decision ∈ terminalReviewDecisions
        · have : r.reserves job = true := by simp [ReviewRequest.reserves, hr, terminal]
          rw [this]
          exact reviewBranch_follows ⟨job, hj⟩ terminal
        · have : r.reserves job = false := by simp [ReviewRequest.reserves, terminal]
          rw [this]
          exact reviewBranch_open ⟨job, hj⟩ terminal

end Handler

end Drnt.Orchestrator
