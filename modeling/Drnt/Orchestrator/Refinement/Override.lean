import Drnt.Orchestrator.Refinement.Steps

/-! The override handler under the discipline. -/
namespace Drnt.Orchestrator

open Lib Lib.Coop

section Successor

variable {j : JobId} {d : Decision} {p : DecisionPhase} {w : World}

theorem decides_parks {succ : Successor} (h : p ≠ .accepted) : (Tok.decides j d p succ).parks := by
  cases p <;> first | exact absurd rfl h | trivial

/-- How the making of a successor ends: it is made, its target is unknown, or its event is
lost. -/
def Spawned (j : JobId) (d : Decision) (p : DecisionPhase) (target : String)
    (r : Except Exc JobId) (τ : Tok) (w : World) : Prop :=
  match r with
  | .ok _ => τ = .decides j d p .made
  | .error _ => (modelOf? target = none ∧ ∃ succ, τ = .decides j d p succ) ∨
      w.view.Lost ∧ ∃ succ, τ = .decides j d .aborted succ

/-- A successor is made and queued between two writes of its override. -/
theorem spawnSuccessor_follows {target t : String} {st : JobStatus}
    (ph : p = .announced ∨ p = .settled) (here : ∃ job, w.job? j = some job) :
    Follows discipline (.decides j (.override t st) p .none) w (spawnSuccessor j target)
      (Spawned j (.override t st) p target) := by
  have taken : p ≠ .accepted := by rcases ph with rfl | rfl <;> simp
  simp only [spawnSuccessor, Co.bind_eq, Co.pure_eq]
  refine uuid7_then (fun i fresh => .mintSuccessor ph fresh) fun i _ _ => now_then fun at_ => ?_
  cases hm : modelOf? target with
  | none => exact .inl ⟨hm, _, rfl⟩
  | some entry =>
    refine derefHere_then here fun job _ => ?_
    refine update_then (.add i (.successor j)) .storeSuccessor (view_addJob _ i _) ?_
    refine update_then (.persist i) (.persist i) (view_persistJob _ i) ?_
    refine emit_else (σ := .decides j (.override t st) p (.waiting i)) (fun e u he => .note ?_)
      (decides_parks taken) (fun e v => .abort taken) (fun w₁ e _ _ _ => ?_)
      fun w₁ x _ hl => .inr ⟨hl, _, rfl⟩
    · simp [Obs.Harmless, he, eventJobClassified, lifecycleTypes]
    refine putNowait_then .enqueueSuccessor rfl ?_
    refine update_then (.revise i (.fails queueFullError)) .failSuccessor
      (view_updateJob (fun _ => rfl) _ i) ?_
    exact update_then (.persist i) (.persist i) (view_persistJob _ i) rfl

end Successor

section Branches

variable {j : JobId} {r : OverrideRequest} {status : JobStatus} {w : World} {t : String}
  {succ : Successor}

/-- The row of the job, if it has one, carries the guard of an override. -/
def Guarded (j : JobId) (w : World) : Prop :=
  ∀ c, w.view.row j = some c → c.overrideType.isSome

theorem humanOverride_then {β : Type} {target detail device : String} {k : Event → Task β}
    {Φ : Except Exc β → Tok → World → Prop} (guard : Guarded j w)
    (next : ∀ w' e, w.view.Grows w'.view →
      Follows discipline (.decides j (.override t status) .announced succ) w' (k e) Φ)
    (lost : ∀ w' x, w'.view.Lost →
      Φ (.error x) (.decides j (.override t status) .aborted succ) w') :
    Follows discipline (.decides j (.override t status) .reserved succ) w
      ((emit (eventHumanOverride j t target detail device)).bind k) Φ := by
  refine emit_else (σ := .decides j (.override t status) .announced succ)
    (fun e u he => .announce ⟨?_, ?_⟩ guard) trivial (fun e v => .abort (by simp))
    (fun w₁ e _ hw _ => next w₁ e hw) fun w' x _ hl => lost w' x hl
  · simp [he, eventHumanOverride]
  · simp [he, eventHumanOverride]

/-- The end of a decision: it is settled unless an event could not be sent. -/
def Settles (j : JobId) (d : Decision) (succ : Successor) (r : Except Exc Unit) (τ : Tok)
    (w : World) : Prop :=
  match r with
  | .ok _ => τ = .decides j d .settled succ
  | .error _ => τ = .decides j d .aborted succ ∧ w.view.Lost

theorem failOverridden_follows {cls detail : String} (here : ∃ job, w.job? j = some job)
    (ends : Decision.overrideEnd t status = .failed) :
    Follows discipline (.decides j (.override t status) .announced succ) w
      (failOverridden j t cls detail) (Settles j (.override t status) succ) := by
  have endStatus : (Decision.override t status).endStatus = .failed := ends
  simp only [failOverridden, Co.bind_eq]
  refine derefHere_then here fun job _ => ?_
  refine endEvent_then ?_ rfl (fun w₁ e _ told => ?_) fun w' x hl => ⟨rfl, hl⟩
  · simp [eventJobFailed, Decision.endType, endStatus, JobStatus.value]
  · refine ⟨_, ⟨.revise j _, @Allowed.settle _ _ _ _ _ (some [.text cls]) told (.inr rfl),
      view_updateJob (fun job => ?_) _ j⟩, rfl⟩
    simp [endStatus, Decision.reserve, Core.closes, Job.core, Job.sourceKey?]

theorem revokeOverridden_follows {reason : String} {id : Uuid7} {s : Option JobId}
    (ends : Decision.overrideEnd t status = .revoked) :
    Follows discipline (.decides j (.override t status) .announced succ) w
      (revokeOverridden j t reason id s) (Settles j (.override t status) succ) := by
  have endStatus : (Decision.override t status).endStatus = .revoked := ends
  simp only [revokeOverridden, Co.bind_eq]
  refine endEvent_then ?_ rfl (fun w₁ e _ told => now_then fun at_ => ?_)
    fun w' x hl => ⟨rfl, hl⟩
  · simp [eventJobRevoked, Decision.endType, endStatus, JobStatus.value]
  · refine ⟨_, ⟨.revise j _, @Allowed.settle _ _ _ _ _ none told (.inr rfl),
      view_updateJob (fun job => ?_) _ j⟩, rfl⟩
    simp [endStatus, Decision.reserve, Core.closes, Job.core, Job.sourceKey?]

/-- How a branch ends: an override that can take effect has done so unless an event could
not be sent. -/
def Branched (j : JobId) (d : Decision) (sound : Bool) (r : Except Exc OverrideReply) (τ : Tok)
    (w : World) : Prop :=
  ∃ p succ, τ = .decides j d p succ ∧ p ≠ .accepted ∧ (sound → match r with
    | .ok reply => p = .settled ∧ (succ = .none ∨ succ = .made) ∧ reply.effective
    | .error _ => p = .aborted ∧ w.view.Lost) ∧
    ∀ reply, r = .ok reply → reply.effective → p.told

theorem branched_lost {d : Decision} {x : Exc} {sound : Bool} (hl : w.view.Lost) :
    Branched j d sound (.error x) (.decides j d .aborted succ) w :=
  ⟨_, succ, rfl, by simp, fun _ => ⟨rfl, hl⟩, (by simp)⟩

theorem branched_done {d : Decision} {reply : OverrideReply} {sound : Bool}
    (made : succ = .none ∨ succ = .made) (effective : reply.effective) :
    Branched j d sound (.ok reply) (.decides j d .settled succ) w :=
  ⟨_, succ, rfl, by simp, fun _ => ⟨rfl, made, effective⟩, fun _ _ _ => rfl⟩

/-- A branch that has set its guard and cannot promise more. -/
theorem branched_unsound {d : Decision} {p : DecisionPhase} {res : Except Exc OverrideReply}
    {sound : Bool} (hp : p ≠ .accepted) (unsound : sound = false)
    (told : ∀ reply, res = .ok reply → reply.effective → p.told) :
    Branched j d sound res (.decides j d p succ) w :=
  ⟨p, succ, rfl, hp, fun h => by simp [unsound] at h, told⟩

theorem Settles.branched {d : Decision} {sound : Bool} {x : Exc} {τ : Tok}
    (h : Settles j d succ (.error x) τ w) : Branched j d sound (.error x) τ w := by
  obtain ⟨rfl, hl⟩ := h
  exact branched_lost hl

/-- A successor that is not made for want of a route leaves the override unsettled. -/
theorem Spawned.branched {d : Decision} {p : DecisionPhase} {τ : Tok} {x : Exc} {target : String}
    {sound : Bool} (h : Spawned j d p target (.error x) τ w) (hp : p ≠ .accepted)
    (known : sound → (modelOf? target).isSome) : Branched j d sound (.error x) τ w := by
  rcases h with ⟨missing, succ, rfl⟩ | ⟨hl, succ, rfl⟩
  · refine branched_unsound hp ?_ (by simp)
    cases sound with
    | false => rfl
    | true => simpa [missing] using known rfl
  · exact branched_lost hl

theorem overrideCancel_follows (here : ∃ job, w.job? j = some job) (guard : Guarded j w) :
    Follows discipline (.decides j (.override "cancel" status) .reserved .none) w
      (overrideCancel j r status.preDelivery)
      (Branched j (.override "cancel" status) r.sound) := by
  simp only [overrideCancel, Co.bind_eq, Co.pure_eq]
  refine humanOverride_then guard (fun w₁ e hw => ?_) fun w' x hl => branched_lost hl
  split
  · rename_i pre
    refine run_then (failOverridden_follows (in_memory_grown hw here) ?_) ?_
      fun w' τ x _ h => h.branched
    · simp [Decision.overrideEnd, pre]
    · rintro w' τ _ _ rfl
      exact branched_done (.inl rfl) rfl
  · rename_i pre
    refine run_then (revokeOverridden_follows ?_) ?_ fun w' τ x _ h => h.branched
    · simp [Decision.overrideEnd, pre]
    · rintro w' τ _ _ rfl
      exact branched_done (.inl rfl) rfl

theorem overrideRedirect_follows (here : ∃ job, w.job? j = some job) (guard : Guarded j w)
    (known : r.sound → (modelOf? r.detail).isSome) :
    Follows discipline (.decides j (.override "redirect" status) .reserved .none) w
      (overrideRedirect j r status.preDelivery)
      (Branched j (.override "redirect" status) r.sound) := by
  simp only [overrideRedirect, Co.bind_eq, Co.pure_eq]
  refine humanOverride_then guard (fun w₁ e hw => ?_) fun w' x hl => branched_lost hl
  have here₁ := in_memory_grown hw here
  split
  · rename_i pre
    refine run_then (failOverridden_follows here₁ ?_) ?_ fun w' τ x _ h => h.branched
    · simp [Decision.overrideEnd, pre]
    · rintro w₂ τ _ hw₂ rfl
      refine run_then (spawnSuccessor_follows (.inr rfl) (in_memory_grown hw₂ here₁)) ?_
        fun w' τ x _ h => h.branched (by simp) known
      rintro w₃ τ i _ rfl
      exact branched_done (.inr rfl) rfl
  · rename_i pre
    refine run_then (spawnSuccessor_follows (.inl rfl) here₁) ?_
      fun w' τ x _ h => h.branched (by simp) known
    rintro w₂ τ i _ rfl
    refine run_then (revokeOverridden_follows ?_) ?_ fun w' τ x _ h => h.branched
    · simp [Decision.overrideEnd, pre]
    · rintro w' τ _ _ rfl
      exact branched_done (.inr rfl) rfl

theorem overrideEscalate_follows (here : ∃ job, w.job? j = some job) (guard : Guarded j w)
    (known : r.sound → (modelOf? r.detail).isSome) :
    Follows discipline (.decides j (.override "escalate" status) .reserved .none) w
      (overrideEscalate j r) (Branched j (.override "escalate" status) r.sound) := by
  simp only [overrideEscalate, Co.bind_eq, Co.pure_eq]
  refine humanOverride_then guard (fun w₁ e hw => ?_) fun w' x hl => branched_lost hl
  refine run_then (spawnSuccessor_follows (.inl rfl) (in_memory_grown hw here)) ?_
    fun w' τ x _ h => h.branched (by simp) known
  rintro w₂ τ i _ rfl
  refine run_then (revokeOverridden_follows ?_) ?_ fun w' τ x _ h => h.branched
  · simp [Decision.overrideEnd]
  · rintro w' τ _ _ rfl
    exact branched_done (.inr rfl) rfl

theorem guarded_reserved (here : ∃ job, w.job? j = some job) :
    Guarded j ((w.updateJob j fun job => { job with overrideType := some t }).persistJob j) := by
  obtain ⟨job, hj⟩ := here
  have view : (w.updateJob j fun job => { job with overrideType := some t }).view =
      (Act.revise j fun c => { c with overrideType := some t }).apply w.view :=
    view_updateJob (fun _ => rfl) w j
  have held : (w.updateJob j fun job => { job with overrideType := some t }).view.core j =
      some { job.core with overrideType := some t } := by
    rw [view]
    simp [Act.apply, hj]
  intro c hc
  rw [row_persistJob held] at hc
  split at hc
  · cases hc; rfl
  · cases hc

/-- The guard of an override is set in memory and in the row of the job. -/
theorem reserveOverride_then {β : Type} {k : Unit → Task β} {p : DecisionPhase}
    {Φ : Except Exc β → Tok → World → Prop} (ready : p = .accepted ∨ p = .reserved)
    (here : ∃ job, w.job? j = some job)
    (next : ∀ w', (∃ job, w'.job? j = some job) → Guarded j w' →
      Follows discipline (.decides j (.override t status) .reserved succ) w' (k ()) Φ) :
    Follows discipline (.decides j (.override t status) p succ) w
      ((reserveOverride j t).bind k) Φ := by
  have guard : Allowed (.decides j (.override t status) p succ) w.view
      (.revise j (Decision.override t status).reserve)
      (.decides j (.override t status) .reserved succ) := by
    rcases ready with rfl | rfl
    · exact .reserve
    · exact .reserveAgain (by simp)
  have run : Follows discipline (.decides j (.override t status) p succ) w (reserveOverride j t)
      fun res τ w' => (res = .ok () ∧ τ = .decides j (.override t status) .reserved succ) ∧
        Guarded j w' :=
    ⟨_, ⟨_, guard, view_updateJob (fun _ => rfl) _ j⟩,
      _, ⟨_, .persist j, view_persistJob _ j⟩, ⟨rfl, rfl⟩, guarded_reserved here⟩
  refine run_then run ?_ fun w' τ x _ h => by cases h.1.1
  rintro w₁ τ _ hw ⟨⟨-, rfl⟩, guarded⟩
  exact next w₁ (in_memory_grown hw here) guarded

theorem modifyResult_follows {cfg : Settings} {modified : String} {p : DecisionPhase}
    (ready : p = .accepted ∨ p = .reserved) (here : ∃ job, w.job? j = some job)
    (unsound : r.sound = false) :
    Follows discipline (.decides j (.override "modify" status) p succ) w
      (modifyResult cfg j r modified (status = .delivered))
      (Branched j (.override "modify" status) r.sound) := by
  have endStatus : (Decision.override "modify" status).endStatus = .delivered := by
    simp [Decision.endStatus, Decision.overrideEnd]
  simp only [modifyResult, Co.bind_eq, Co.pure_eq]
  refine reserveOverride_then ready here fun w₁ here₁ guard => ?_
  refine humanOverride_then guard (fun w₂ e hw₂ => ?_)
    fun w' x _ => branched_unsound (by simp) unsound (by simp)
  refine uuid7_then (fun u _ => .mint u) fun u _ _ => ?_
  refine keeps_then (E := fun _ => True)
    (keeps_writeResult (by trivial) _ _ fun _ _ => trivial) (fun w₃ _ _ => ?_)
    fun w' x _ _ => branched_unsound (by simp) unsound (by simp)
  refine deref_then (fun job _ => ?_) fun _ => branched_unsound (by simp) unsound (by simp)
  refine keeps_then (E := fun _ => True) (keeps_emit (by trivial) ?_ fun _ _ => trivial)
    (fun w₄ _ _ => ?_) fun w' x _ _ => branched_unsound (by simp) unsound (by simp)
  · simp [eventHumanReviewed, lifecycleTypes]
  refine update_then (.revise j (Decision.override "modify" status).reserve)
    (.reserveAgain (by simp)) (view_updateJob (fun _ => rfl) _ j) ?_
  split
  · refine endEvent_then ?_ rfl (fun w₅ e _ told => now_then fun at_ => ?_)
      fun w' x _ => branched_unsound (by simp) unsound (by simp)
    · simp [eventJobDelivered, Decision.endType, endStatus, JobStatus.value]
    · refine update_then (.revise j (.closes .delivered none))
        (@Allowed.settle _ _ _ _ _ none told (.inl ?_))
        (view_updateJob (fun _ => rfl) _ j)
        (branched_unsound (by simp) unsound fun _ _ _ => rfl)
      rw [endStatus]
  · exact branched_unsound (by simp) unsound fun _ _ _ => rfl

end Branches

section Finish

variable {j : JobId} {w : World} {τ : Tok}

theorem keeps_demoteForOverride {E : World → Prop} (parks : τ.parks)
    (lost : ∀ w, w.view.Lost → E w) (cfg : Settings) (capabilityId : Option String) (t : String) :
    Keeps discipline E τ (demoteForOverride cfg capabilityId j t) := by
  unfold demoteForOverride
  split
  · exact keeps_bind (keeps_emit parks (by simp [demotionDraft, lifecycleTypes]) lost)
      fun _ => keeps_ret _
  · exact keeps_ret _

/-- What follows an override that took effect fails only with an event or with a last failing
capability that cannot be hashed. -/
theorem finishOverride_follows {cfg : Settings} {t : String} (parks : τ.parks)
    (here : ∃ job, w.job? j = some job) :
    Follows discipline τ w (finishOverride cfg j t) fun r τ' w' =>
      τ' = τ ∧ ∀ x, r = .error x → w'.view.Lost ∨ w'.view.Unhashable j := by
  have demote (w : World) (here : ∃ job, w.job? j = some job) :
      Follows discipline τ w (if t ∈ conditionalDemotionTypes then
        (deref j).bind fun job =>
          (orRaise (isSentinelFailure job.lastFailingCapabilityId)).bind fun sentinel =>
            if (!sentinel) = true then demoteForOverride cfg job.governingCapabilityId j t
            else Co.ret ()
        else Co.ret ()) fun r τ' w' =>
      τ' = τ ∧ ∀ x, r = .error x → w'.view.Lost ∨ w'.view.Unhashable j := by
    split
    · refine derefHere_then here fun job hj => ?_
      refine orRaise_then (fun sentinel _ => ?_) fun x hx => ?_
      · split
        · refine (keeps_demoteForOverride (E := fun w => w.view.Lost) parks (fun _ h => h) cfg _ t
            w).mono ?_
          exact fun r τ' w' h => ⟨h.1, fun x hx => .inl (h.2 x hx)⟩
        · exact ⟨rfl, fun _ h => by cases h⟩
      · exact ⟨rfl, fun _ _ => .inr ⟨job.core, by simp [hj], x, hx⟩⟩
    · exact ⟨rfl, fun _ h => by cases h⟩
  simp only [finishOverride, Co.bind_eq, Co.pure_eq]
  refine keeps_then (E := fun w => w.view.Lost) (keeps_persistJob j) (fun w₁ _ hw₁ => ?_)
    fun w' x _ hl => ⟨rfl, fun _ _ => .inl hl⟩
  refine world_then (quiet_then rfl ?_)
  have here₂ : ∃ job, (w₁.popWorkerContext j).job? j = some job := in_memory_grown hw₁ here
  split
  · refine keeps_then (keeps_teardownWorker parks (fun _ h => h) _) (fun w₂ _ hw₂ => ?_)
      fun w' x _ hl => ⟨rfl, fun _ _ => .inl hl⟩
    exact demote w₂ (in_memory_grown hw₂ here₂)
  · exact demote _ here₂

end Finish

section Handler

variable {cfg : Settings} {j : JobId} {r : OverrideRequest} {status : JobStatus} {w : World}

/-- The branches of the four types, and of a type that is none of them. -/
theorem overrideBranch_follows {p : DecisionPhase} (here : ∃ job, w.job? j = some job)
    (ready : p = .reserved ∧ Guarded j w ∨ p = .accepted ∧ r.modifies status) :
    Follows discipline (.decides j (.override r.overrideType status) p .none) w
      (overrideBranch cfg j r status) (Branched j (.override r.overrideType status) r.sound) := by
  have reserved (other : r.overrideType ≠ "modify") : p = .reserved ∧ Guarded j w := by
    refine ready.resolve_right fun h => other ?_
    have := h.2
    simp only [OverrideRequest.modifies, decide_eq_true_eq] at this
    exact this.1
  unfold overrideBranch
  split
  · rename_i ht
    obtain ⟨rfl, guard⟩ := reserved (by simp [ht])
    rw [ht]
    exact overrideCancel_follows here guard
  split
  · rename_i ht
    obtain ⟨rfl, guard⟩ := reserved (by simp [ht])
    rw [ht]
    exact overrideRedirect_follows here guard fun h => by simpa [OverrideRequest.sound, ht] using h
  split
  · rename_i ht
    have unsound : r.sound = false := by simp [OverrideRequest.sound, ht]
    have refused (reason : String) (bad : r.modifies status = false) :
        Branched j (.override r.overrideType status) r.sound (.ok (.error reason))
          (.decides j (.override r.overrideType status) p .none) w := by
      refine branched_unsound ?_ unsound fun reply eq effective => ?_
      · rintro rfl
        simp [bad] at ready
      · cases eq
        cases effective
    rw [ht] at refused ⊢
    unfold overrideModify
    split
    · exact refused _ (by simp [OverrideRequest.modifies, *])
    · exact refused _ (by simp [OverrideRequest.modifies, *])
    · split
      · refine modifyResult_follows (ready.elim (fun h => .inr h.1) fun h => .inl h.1) here
          unsound
      · exact refused _ (by simp [OverrideRequest.modifies, *])
  split
  · rename_i ht
    obtain ⟨rfl, guard⟩ := reserved (by simp [ht])
    rw [ht]
    exact overrideEscalate_follows here guard fun h => by simpa [OverrideRequest.sound, ht] using h
  · have unsound : r.sound = false := by simp [OverrideRequest.sound, *]
    refine branched_unsound (by simp [(reserved (by assumption)).1]) unsound ?_
    intro reply eq effective
    cases eq
    cases effective

theorem overrideEnds_decided {d : Decision} {p : DecisionPhase} {succ : Successor}
    {res : Except Exc OverrideReply} {v : View} (hp : p ≠ .accepted)
    (ends : r.sound → (p = .settled ∧ (succ = .none ∨ succ = .made) ∧
      ((∃ reply, res = .ok reply ∧ reply.effective) ∨ v.Lost ∨ v.Unhashable j)) ∨
      p = .aborted ∧ v.Lost)
    (told : ∀ reply, res = .ok reply → reply.effective → p.told) :
    OverrideEnds j r res (.decides j d p succ) v := by
  refine ⟨(by simp), (by simp), fun d' p' succ' h => ?_, fun d' p' succ' reply h => ?_, (by simp)⟩
  · cases h
    exact ⟨hp, ends⟩
  · cases h
    exact told reply

/-- From the branch on, with the guard set where the type and status want it. -/
theorem overrideTail_follows {p : DecisionPhase} (here : ∃ job, w.job? j = some job)
    (ready : p = .reserved ∧ Guarded j w ∨ p = .accepted ∧ r.modifies status) :
    Follows discipline (.decides j (.override r.overrideType status) p .none) w
      ((overrideBranch cfg j r status).bind fun reply =>
        if (!reply.isError) = true then
          (finishOverride cfg j r.overrideType).bind fun _ => Co.ret reply
        else Co.ret reply)
      fun res τ w' => OverrideEnds j r res τ w'.view := by
  refine run_then (overrideBranch_follows here ready) (fun w₁ τ reply hw h => ?_)
    fun w' τ x _ h => ?_
  · obtain ⟨p, succ, rfl, hp, sound, told⟩ := h
    have told : reply.effective → p.told := told reply rfl
    split
    · refine run_then (finishOverride_follows (decides_parks hp) (in_memory_grown hw here)) ?_ ?_
      · rintro w₂ τ _ _ ⟨rfl, -⟩
        exact overrideEnds_decided hp (fun hs =>
          .inl ⟨(sound hs).1, (sound hs).2.1, .inl ⟨reply, rfl, (sound hs).2.2⟩⟩)
          fun _ eq => by cases eq; exact told
      · rintro w₂ τ x _ ⟨rfl, why⟩
        exact overrideEnds_decided hp (fun hs =>
          .inl ⟨(sound hs).1, (sound hs).2.1, .inr (why x rfl)⟩) (by simp)
    · exact overrideEnds_decided hp (fun hs =>
        .inl ⟨(sound hs).1, (sound hs).2.1, .inl ⟨reply, rfl, (sound hs).2.2⟩⟩)
        fun _ eq => by cases eq; exact told
  · obtain ⟨p, succ, rfl, hp, sound, -⟩ := h
    exact overrideEnds_decided hp (fun hs => .inr (sound hs)) (by simp)

theorem runOverride_follows {job : Job} (hj : w.job? j = some job) (res : r.reserves job) :
    Follows discipline (.decides j (.override r.overrideType job.status) .accepted .none) w
      (runOverride cfg j r job.status) fun res τ w' => OverrideEnds j r res τ w'.view := by
  simp only [runOverride, Co.bind_eq, Co.pure_eq]
  split
  · refine reserveOverride_then (.inl rfl) ⟨job, hj⟩ fun w₁ here₁ guard₁ => ?_
    split
    · exact reserveOverride_then (.inr rfl) here₁ fun w₂ here₂ guard₂ =>
        overrideTail_follows here₂ (.inl ⟨rfl, guard₂⟩)
    · exact overrideTail_follows here₁ (.inl ⟨rfl, guard₁⟩)
  · rename_i other
    split
    · exact reserveOverride_then (.inl rfl) ⟨job, hj⟩ fun w₁ here₁ guard₁ =>
        overrideTail_follows here₁ (.inl ⟨rfl, guard₁⟩)
    · rename_i held
      refine overrideTail_follows ⟨job, hj⟩ (.inr ⟨rfl, ?_⟩)
      simp only [OverrideRequest.reserves, decide_eq_true_eq] at res
      exact (res.2.resolve_left other).resolve_left held

/-- An override that sets no guard answers with an error at once. -/
theorem runOverride_unreserved {job : Job} (open_ : overrideRefusal job = none)
    (res : r.reserves job = false) :
    Follows discipline .idle w (runOverride cfg j r job.status)
      fun res τ w' => OverrideEnds j r res τ w'.view := by
  simp only [OverrideRequest.reserves, open_, true_and, decide_eq_false_iff_not, not_or] at res
  obtain ⟨type, status, modifies⟩ := res
  have answer (reason : String) : OverrideEnds j r (.ok (.error reason)) .idle w.view :=
    ⟨(by simp), fun _ _ h => by cases h; rfl, (by simp), fun _ _ _ _ h => (by cases h), (by simp)⟩
  simp only [List.mem_cons, List.not_mem_nil, or_false, not_or] at type
  simp only [runOverride, Co.bind_eq, Co.pure_eq, overrideBranch, type, status, List.mem_cons,
    List.not_mem_nil, or_self, if_false]
  split
  · rename_i ht
    unfold overrideModify
    split
    · exact answer _
    · exact answer _
    · rename_i modified nonempty found
      split
      · refine absurd ?_ modifies
        have : modified ≠ "" := fun h => nonempty h
        simp [OverrideRequest.modifies, *]
      · exact answer _
  · exact answer _

theorem overrideJob_follows :
    Follows discipline (first (.override j r) w) w (overrideJob cfg j r)
      (Ends cfg (.override j r)) := by
  simp only [overrideJob, first, Co.bind_eq, Co.pure_eq]
  refine world_then ?_
  cases hj : w.job? j with
  | none => exact ⟨(by simp), fun _ _ h => by cases h; rfl, (by simp), fun _ _ _ _ h => (by cases h), (by simp)⟩
  | some job =>
    dsimp only
    cases ho : overrideRefusal job with
    | some reason =>
      have : r.reserves job = false := by simp [OverrideRequest.reserves, ho]
      rw [this]
      exact ⟨fun _ => ⟨reason, rfl⟩, (by simp), (by simp), fun _ _ _ _ h => (by cases h), (by simp)⟩
    | none =>
      by_cases res : r.reserves job = true
      · rw [if_pos res]
        exact runOverride_follows hj res
      · rw [if_neg res]
        exact runOverride_unreserved ho (by simpa using res)

end Handler

end Drnt.Orchestrator
