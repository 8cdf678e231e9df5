import Drnt.Orchestrator.Trial

/-! The replies of the egress gateway to a dispatch: which of them the pipeline takes for a
response. -/
namespace Drnt.Orchestrator

open Lib Lib.Coop Trial

section Stages

/-- The events of a response. -/
def responseTypes : List String := ["model.response", "job.response_received"]

/-- A dispatch goes out to the gateway. -/
def Obs.Outbound : Obs → Prop
  | .called _ (.egress _ _ _ _ _ _) => True
  | _ => False

/-- A response is announced. -/
def Obs.Responds : Obs → Prop
  | .attempted e => e.eventType ∈ responseTypes
  | _ => False

/-- The job has got no result since, and has not been delivered since. -/
structure Job.Unanswered (before after : Job) : Prop where
  result : after.result = before.result
  resultId : after.resultId = before.resultId
  responseHash : after.responseHash = before.responseHash
  delivered : after.status = .delivered → before.status = .delivered

/-- The trace grows by observations of a kind. -/
def Adds (P : Obs → Prop) (w w' : World) : Prop :=
  ∃ obs, w'.trace = w.trace ++ obs ∧ ∀ o ∈ obs, P o

def KeepsResult (j : JobId) (w w' : World) : Prop :=
  ∀ job, w.job? j = some job → ∃ job', w'.job? j = some job' ∧ job.Unanswered job'

/-- Nothing goes out to the gateway. -/
def Local (w w' : World) : Prop := Adds (fun o => ¬ o.Outbound) w w'

/-- No response is announced, nor noted on the job. -/
def Mute (j : JobId) (w w' : World) : Prop :=
  Adds (fun o => ¬ o.Responds) w w' ∧ KeepsResult j w w'

def Quiet (j : JobId) (w w' : World) : Prop := Local w w' ∧ Mute j w w'

variable {P : Obs → Prop} {j : JobId} {w w' : World} {cfg : Settings}

theorem adds_refl (P : Obs → Prop) (w : World) : Adds P w w := ⟨[], by simp, by simp⟩

theorem adds_trans (a b c : World) (h : Adds P a b) (h' : Adds P b c) : Adds P a c := by
  obtain ⟨obs, eq, all⟩ := h
  obtain ⟨obs', eq', all'⟩ := h'
  refine ⟨obs ++ obs', by rw [eq', eq, List.append_assoc], fun o mem => ?_⟩
  exact (List.mem_append.mp mem).elim (all o) (all' o)

theorem keepsResult_trans (a b c : World) (h : KeepsResult j a b) (h' : KeepsResult j b c) :
    KeepsResult j a c := by
  intro job hj
  obtain ⟨job', hj', same⟩ := h job hj
  obtain ⟨job'', hj'', same'⟩ := h' job' hj'
  exact ⟨job'', hj'', same'.1.trans same.1, same'.2.trans same.2, same'.3.trans same.3,
    fun done => same.4 (same'.4 done)⟩

theorem mute_refl (j : JobId) (w : World) : Mute j w w :=
  ⟨adds_refl _ w, fun job hj => ⟨job, hj, rfl, rfl, rfl, id⟩⟩

theorem mute_trans (a b c : World) (h : Mute j a b) (h' : Mute j b c) : Mute j a c :=
  ⟨adds_trans a b c h.1 h'.1, keepsResult_trans a b c h.2 h'.2⟩

theorem quiet_refl (j : JobId) (w : World) : Quiet j w w := ⟨adds_refl _ w, mute_refl j w⟩

theorem quiet_trans (a b c : World) (h : Quiet j a b) (h' : Quiet j b c) : Quiet j a c :=
  ⟨adds_trans a b c h.1 h'.1, mute_trans a b c h.2 h'.2⟩

/-- A write that touches neither the history nor the jobs. -/
theorem quiet_same (trace : w'.trace = w.trace) (jobs : w'.jobs = w.jobs) : Quiet j w w' := by
  refine ⟨⟨[], by simp [trace], by simp⟩, ⟨[], by simp [trace], by simp⟩, fun job hj => ?_⟩
  exact ⟨job, by simpa [World.job?, jobs] using hj, rfl, rfl, rfl, id⟩

theorem quiet_record {o : Obs} (outbound : ¬ o.Outbound) (responds : ¬ o.Responds) :
    Quiet j w (w.record o) := by
  refine ⟨⟨[o], rfl, by simpa using outbound⟩, ⟨[o], rfl, by simpa using responds⟩, fun job hj => ?_⟩
  exact ⟨job, hj, rfl, rfl, rfl, id⟩

theorem quiet_updateJob {f : Job → Job} (i : JobId) (h : ∀ job : Job, job.Unanswered (f job)) :
    Quiet j w (w.updateJob i f) := by
  refine ⟨⟨[], by simp, by simp⟩, ⟨[], by simp, by simp⟩, fun job hj => ?_⟩
  simp only [World.job?] at hj
  by_cases eq : i = j
  · subst eq
    exact ⟨f job, by simp [World.job?, Dict.get?_modify_self, hj], h job⟩
  · exact ⟨job, by simp [World.job?, Dict.get?_modify_ne _ (Ne.symm eq), hj], rfl, rfl, rfl, id⟩

section Steps

variable {α β : Type}

theorem quiet_ret (a : α) : (Co.ret a : Task α).Ensures (Quiet j) := Co.ensures_ret (quiet_refl j) a

theorem quiet_raise (e : Exc) : (Co.raise e : Task α).Ensures (Quiet j) :=
  Co.ensures_raise (S := sig) (quiet_refl j) e

theorem quiet_orRaise (a : Except Exc α) : (orRaise a).Ensures (Quiet j) := by
  cases a with
  | ok a => exact quiet_ret a
  | error e => exact quiet_raise e

theorem quiet_perform (q : Req) : (perform q).Ensures (Quiet j) :=
  Co.ensures_perform (S := sig) (quiet_refl j) q

theorem quiet_update {f : World → World} (h : ∀ w, Quiet j w (f w)) :
    (update f).Ensures (Quiet j) := Co.ensures_modify h

theorem quiet_bind {x : Task α} {f : α → Task β} (hx : x.Ensures (Quiet j))
    (hf : ∀ a, (f a).Ensures (Quiet j)) : (x >>= f).Ensures (Quiet j) :=
  Co.ensures_bind quiet_trans hx hf

theorem quiet_world {f : World → Task α} (h : ∀ w, (f w).Ensures (Quiet j)) :
    (world >>= f).Ensures (Quiet j) := Co.ensures_read h

theorem quiet_tryCatch {x : Task α} {h : Exc → Task α} (hx : x.Ensures (Quiet j))
    (hh : ∀ e, (h e).Ensures (Quiet j)) : (x.tryCatch h).Ensures (Quiet j) :=
  Co.ensures_tryCatch quiet_trans hx hh

theorem quiet_uuid7 : uuid7.Ensures (Quiet j) := by
  refine quiet_bind (quiet_perform _) fun u => ?_
  exact quiet_bind (quiet_update fun w => quiet_same rfl rfl) fun _ => quiet_ret u

theorem quiet_build (draft : Draft) : (build draft).Ensures (Quiet j) := by
  refine quiet_bind quiet_uuid7 fun u => ?_
  exact quiet_bind (quiet_perform _) fun t => quiet_ret _

theorem quiet_emitDurable {e : Event} (h : e.eventType ∉ responseTypes) :
    (emitDurable e).Ensures (Quiet j) := by
  refine quiet_bind (quiet_update fun w => quiet_record id h) fun _ => ?_
  refine quiet_bind (quiet_perform _) fun a => ?_
  split
  · exact quiet_bind (quiet_update fun w => quiet_record id id) fun _ => quiet_ret _
  · exact quiet_bind (quiet_update fun w => quiet_record id id) fun _ => quiet_ret _
  · exact quiet_bind (quiet_update fun w => quiet_record id id) fun _ => quiet_raise _

/-- An event that has been built is of the type of its draft. -/
theorem quiet_built {draft : Draft} {f : Event → Task α}
    (h : ∀ e : Event, e.eventType = draft.eventType → (f e).Ensures (Quiet j)) :
    (build draft >>= f).Ensures (Quiet j) := by
  intro admits w r w' out
  rcases Co.outcome_bind.mp out with ⟨e, w₁, built, rest⟩ | ⟨x, failed, -⟩
  · have returns : (build draft).Returns fun e => e.eventType = draft.eventType :=
      Co.returns_bind (Co.returns_any _) fun u _ => Co.returns_bind (Co.returns_any _) fun t _ => rfl
    exact quiet_trans _ _ _ (quiet_build draft _ _ _ _ built)
      (h e (returns.outcome built) _ _ _ _ rest)
  · exact quiet_build draft _ _ _ _ failed

theorem quiet_emit {draft : Draft} (h : draft.eventType ∉ responseTypes) :
    (emit draft).Ensures (Quiet j) :=
  quiet_built fun e same => quiet_bind (quiet_emitDurable (same ▸ h)) fun _ => quiet_ret e

theorem quiet_deref (i : JobId) : (deref i).Ensures (Quiet j) := by
  refine quiet_world fun w => ?_
  split
  · exact quiet_ret _
  · exact quiet_raise _

theorem quiet_update_job {f : Job → Job} (i : JobId) (h : ∀ job : Job, job.Unanswered (f job)) :
    (updateJob i f).Ensures (Quiet j) := quiet_update fun _ => quiet_updateJob i h

theorem quiet_persist (i : JobId) : (persistJob i).Ensures (Quiet j) :=
  quiet_update fun _ => quiet_same rfl rfl

end Steps

section Early

theorem quiet_failJob (i : JobId) (error : List Json) : (failJob i error).Ensures (Quiet j) :=
  quiet_bind (quiet_update_job i fun _ => ⟨rfl, rfl, rfl, by simp⟩) fun _ => quiet_persist i

theorem quiet_classifyJob (i : JobId) (rawInput : String) :
    (classifyJob i rawInput).Ensures (Quiet j) := by
  refine quiet_bind (quiet_perform _) fun a => ?_
  refine quiet_bind (quiet_orRaise a) fun c => ?_
  refine quiet_bind (quiet_emit (by simp [eventJobClassified, responseTypes])) fun _ => ?_
  refine quiet_bind (quiet_perform _) fun t => ?_
  exact quiet_bind (quiet_update_job i fun _ => ⟨rfl, rfl, rfl, by simp⟩) fun _ => quiet_ret _

theorem quiet_classifyStage (i : JobId) (job : Job) : (classifyStage i job).Ensures (Quiet j) := by
  have rest (route : Route) : (do
      updateJob i fun job => { job with walLevel := some 0 }
      persistJob i
      return route : Task Route).Ensures (Quiet j) :=
    quiet_bind (quiet_update_job i fun _ => ⟨rfl, rfl, rfl, by simp⟩) fun _ =>
      quiet_bind (quiet_persist i) fun _ => quiet_ret route
  unfold classifyStage
  split
  · exact rest _
  · exact quiet_bind (quiet_classifyJob i _) rest

theorem quiet_circuitStage (i : JobId) (route : Route) :
    (circuitStage cfg i route).Ensures (Quiet j) := by
  refine quiet_world fun w => ?_
  split
  · refine quiet_bind (quiet_emit (by simp [eventJobQueued, responseTypes])) fun _ => ?_
    refine quiet_bind (quiet_emit (by simp [eventJobFailed, responseTypes])) fun _ => ?_
    exact quiet_bind (quiet_failJob i _) fun _ => quiet_ret none
  · exact quiet_ret _

theorem quiet_permissionStage (i : JobId) (route : Route) :
    (permissionStage cfg i route).Ensures (Quiet j) := by
  unfold permissionStage
  split
  · refine quiet_bind ?_ fun result => ?_
    · refine quiet_world fun w => quiet_bind (quiet_orRaise _) fun result => ?_
      refine quiet_bind (quiet_emit ?_) fun e => quiet_ret _
      simp [permissionEvent, eventWalPermissionCheck, responseTypes]
    · dsimp only
      split
      · refine quiet_bind (quiet_emit (by simp [eventJobFailed, responseTypes])) fun _ => ?_
        exact quiet_bind (quiet_failJob i _) fun _ => quiet_ret none
      · exact quiet_ret _
  · refine quiet_bind (quiet_emit ?_) fun _ => quiet_ret _
    simp [stubCheck, eventWalPermissionCheck, responseTypes]

theorem quiet_failPreparation {α : Type} (i : JobId) (capabilityId error : String) :
    (failPreparation i capabilityId error : Task α).Ensures (Quiet j) :=
  quiet_bind (quiet_emit (by simp [eventWorkerPreparationFailed, responseTypes])) fun _ =>
    quiet_raise _

theorem quiet_prepareWorker (i : JobId) : (prepareWorker i).Ensures (Quiet j) := by
  refine quiet_bind (quiet_deref i) fun job => quiet_world fun w => ?_
  split
  · exact quiet_failPreparation i _ _
  refine quiet_bind (quiet_perform _) fun manifest => ?_
  refine quiet_bind (quiet_emit (by simp [eventManifestValidated, responseTypes])) fun _ => ?_
  split
  · exact quiet_failPreparation i _ _
  refine quiet_bind (quiet_perform _) fun a => ?_
  split
  · exact quiet_failPreparation i _ _
  refine quiet_bind (quiet_emit (by simp [eventBlueprintCreated, responseTypes])) fun _ => ?_
  refine quiet_bind (quiet_perform _) fun workerId => ?_
  refine quiet_bind (quiet_update fun _ => quiet_same rfl rfl) fun _ => ?_
  exact quiet_bind (quiet_emit (by simp [eventWorkerPrepared, responseTypes])) fun _ => quiet_ret _

theorem quiet_prepareStage (i : JobId) : (prepareStage cfg i).Ensures (Quiet j) := by
  unfold prepareStage
  split
  · exact quiet_ret _
  · refine quiet_tryCatch ?_ fun _ => quiet_bind (quiet_failJob i _) fun _ => quiet_ret none
    refine quiet_bind (quiet_prepareWorker i) fun ctx => ?_
    exact quiet_bind (quiet_update fun _ => quiet_same rfl rfl) fun _ => quiet_ret _

theorem quiet_fallbackStage (i : JobId) (route : Route) :
    (fallbackStage cfg i route).Ensures (Quiet j) := by
  unfold fallbackStage
  split
  · dsimp only
    split
    · exact quiet_bind (quiet_emit (by simp [eventEgressFallbackToLocal, responseTypes])) fun _ =>
        quiet_ret _
    · exact quiet_ret _
  · exact quiet_ret _

theorem quiet_package (transform : String → String × List Span) (i : JobId) (rawInput : String) :
    (package cfg transform i rawInput).Ensures (Quiet j) := by
  refine quiet_bind quiet_uuid7 fun packageId => quiet_bind quiet_uuid7 fun fieldId => ?_
  refine quiet_bind (quiet_perform _) fun a => ?_
  refine quiet_bind (quiet_orRaise a) fun hash => ?_
  refine quiet_bind (quiet_emit (by simp [eventContextPackaged, responseTypes])) fun _ => ?_
  refine quiet_bind ?_ fun _ => quiet_ret _
  refine Co.ensures_each (quiet_refl j) quiet_trans fun span => ?_
  exact quiet_bind (quiet_emit (by simp [stripDetail, eventContextStripDetail, responseTypes]))
    fun _ => quiet_ret _

theorem quiet_packageStage (i : JobId) (route : Route) :
    (packageStage cfg i route).Ensures (Quiet j) := by
  refine quiet_bind (quiet_deref i) fun job => ?_
  split
  · split
    · exact quiet_bind (quiet_orRaise _) fun _ => quiet_bind (quiet_package _ i _) fun p => quiet_ret _
    · exact quiet_raise _
  · exact quiet_ret _

theorem quiet_dispatchStage (i : JobId) (route : Route) (permit : Permit) (prompt : Prompt) :
    (dispatchStage i route permit prompt).Ensures (Quiet j) := by
  refine quiet_bind (quiet_orRaise _) fun model => quiet_built fun e same => ?_
  have type : e.eventType ∉ responseTypes := by
    rw [same]
    simp [dispatchDraft, eventJobDispatched, responseTypes]
  refine quiet_bind (quiet_update fun _ => quiet_record id id) fun _ => ?_
  refine quiet_bind (quiet_emitDurable type) fun _ => quiet_bind (quiet_perform _) fun t => ?_
  refine quiet_bind (quiet_update_job i fun _ => ⟨rfl, rfl, rfl, by simp⟩) fun _ => ?_
  exact quiet_bind (quiet_persist i) fun _ => quiet_ret _

/-- The job, if it is in memory, has a status. -/
def Has (j : JobId) (st : JobStatus) (w : World) : Prop :=
  ∀ job, w.job? j = some job → job.status = st

theorem has_updateJob {f : Job → Job} {st : JobStatus} (h : ∀ job, (f job).status = st) :
    Has j st (w.updateJob j f) := by
  intro job hj
  simp only [World.job?, World.updateJob_jobs, Dict.get?_modify_self, Option.map_eq_some_iff] at hj
  obtain ⟨job₀, -, rfl⟩ := hj
  exact h job₀

theorem dispatchStage_leaves (route : Route) (permit : Permit) (prompt : Prompt) :
    (dispatchStage j route permit prompt).Leaves (Has j .dispatched) := by
  iterate 5 refine Co.leaves_bind fun _ => ?_
  rintro _ w _ _ ⟨-, rfl⟩
  exact has_updateJob (w := w) fun _ => rfl

theorem quiet_teardownWorker (ctx : WorkerContext) : (teardownWorker ctx).Ensures (Quiet j) := by
  refine quiet_bind (quiet_perform _) fun report => ?_
  refine quiet_bind (quiet_emit (by simp [eventWorkerTeardown, responseTypes])) fun _ => ?_
  exact quiet_update fun _ => quiet_same rfl rfl

theorem quiet_teardownFailed (i : JobId) (ctx : Option WorkerContext) :
    (teardownFailed i ctx).Ensures (Quiet j) := by
  cases ctx with
  | none => exact quiet_ret _
  | some ctx =>
    exact quiet_bind (quiet_teardownWorker ctx) fun _ => quiet_update fun _ => quiet_same rfl rfl

theorem quiet_teardown (i : JobId) : (do
    let context := (← world).workerContexts.get? i
    update (·.popWorkerContext i)
    match context, cfg.workerLifecycle with
    | some ctx, some _ => (teardownWorker ctx).tryCatch fun _ => pure ()
    | _, _ => pure () : Task Unit).Ensures (Quiet j) := by
  refine quiet_world fun w => quiet_bind (quiet_update fun _ => quiet_same rfl rfl) fun _ => ?_
  dsimp only
  split
  · exact quiet_tryCatch (quiet_teardownWorker _) fun _ => quiet_ret _
  · exact quiet_ret _

theorem quiet_pipelineFailed (i : JobId) : (pipelineFailed cfg i).Ensures (Quiet j) := by
  refine quiet_world fun w => ?_
  split
  · split
    · exact quiet_bind (quiet_failJob i _) fun _ => quiet_teardown i
    · exact quiet_teardown i
  · exact quiet_teardown i

end Early

section Late

variable {α β : Type}

theorem Quiet.mute (h : Quiet j w w') : Mute j w w' := h.2

theorem local_of_quiet {x : Task α} (h : ∀ j, x.Ensures (Quiet j)) : x.Ensures Local :=
  (h ⟨0, 0, 0⟩).mono fun _ _ quiet => quiet.1

theorem local_bind {x : Task α} {f : α → Task β} (hx : x.Ensures Local)
    (hf : ∀ a, (f a).Ensures Local) : (x >>= f).Ensures Local :=
  Co.ensures_bind (adds_trans) hx hf

theorem local_tryCatch {x : Task α} {h : Exc → Task α} (hx : x.Ensures Local)
    (hh : ∀ e, (h e).Ensures Local) : (x.tryCatch h).Ensures Local :=
  Co.ensures_tryCatch adds_trans hx hh

theorem local_ret (a : α) : (Co.ret a : Task α).Ensures Local := local_of_quiet fun _ => quiet_ret a

theorem local_raise (e : Exc) : (Co.raise e : Task α).Ensures Local :=
  local_of_quiet fun _ => quiet_raise e

theorem local_orRaise (a : Except Exc α) : (orRaise a).Ensures Local :=
  local_of_quiet fun _ => quiet_orRaise a

theorem local_perform (q : Req) : (perform q).Ensures Local := local_of_quiet fun _ => quiet_perform q

theorem local_record {o : Obs} (h : ¬ o.Outbound) : (update (·.record o)).Ensures Local :=
  Co.ensures_modify fun _ => ⟨[o], rfl, by simpa using h⟩

theorem local_update {f : World → World} (h : ∀ w, (f w).trace = w.trace) :
    (update f).Ensures Local := Co.ensures_modify fun w => ⟨[], by simp [h], by simp⟩

theorem local_emit (draft : Draft) : (emit draft).Ensures Local := by
  refine local_bind (local_of_quiet fun _ => quiet_build draft) fun e => ?_
  refine local_bind ?_ fun _ => local_ret e
  refine local_bind (local_record id) fun _ => local_bind (local_perform _) fun a => ?_
  split
  · exact local_bind (local_record id) fun _ => local_ret _
  · exact local_bind (local_record id) fun _ => local_ret _
  · exact local_bind (local_record id) fun _ => local_raise _

theorem local_executeInWorker (ctx : WorkerContext) (dispatch : Event) (prompt model : String) :
    (executeInWorker ctx dispatch prompt model).Ensures Local := by
  refine local_bind (local_emit _) fun _ => local_tryCatch ?_ fun e => ?_
  · refine local_bind (local_record id) fun _ => local_bind (local_perform _) fun a => ?_
    refine local_bind (local_orRaise a) fun result => local_bind (local_emit _) fun _ => ?_
    split
    · exact local_ret _
    · exact local_raise _
  · split
    · exact local_raise _
    · exact local_raise _
    · exact local_bind (local_emit _) fun _ => local_raise _

theorem local_localResponse (text latencyMs tokenIn tokenOut : Json) :
    (localResponse cfg text latencyMs tokenIn tokenOut).Ensures Local := by
  refine local_bind (local_of_quiet fun _ => quiet_uuid7) fun resultId => ?_
  exact local_bind (local_orRaise _) fun hash => local_ret _

theorem local_workerResponse (i : JobId) (d : Dispatch) (ctx : WorkerContext) (prompt : String) :
    (workerResponse cfg i d ctx prompt).Ensures Local := by
  refine local_tryCatch ?_ fun e => ?_
  · refine local_bind (local_executeInWorker ctx _ _ _) fun r => ?_
    exact local_bind (local_localResponse _ _ _ _) fun _ => local_ret _
  · refine local_bind (local_emit _) fun _ => ?_
    refine local_bind (local_of_quiet fun _ => quiet_failJob i _) fun _ => ?_
    exact local_bind (local_of_quiet fun _ => quiet_teardownFailed i _) fun _ => local_ret _

theorem local_generateResponse (d : Dispatch) (prompt : String) :
    (generateResponse cfg d prompt).Ensures Local := by
  refine local_bind (local_record id) fun _ => local_bind (local_perform _) fun a => ?_
  refine local_bind (local_orRaise a) fun r => ?_
  exact local_bind (local_localResponse _ _ _ _) fun _ => local_ret _

theorem local_writeResult (resultId content : Json) : (writeResult resultId content).Ensures Local := by
  unfold writeResult
  split
  · split
    · refine local_bind (local_perform _) fun a => ?_
      split
      · exact local_update fun _ => rfl
      · exact local_bind (local_record id) fun _ => local_raise _
    · exact local_raise _
  · exact local_raise _

theorem local_recordStage (i : JobId) (route : Route) (model : String) (r : Response) :
    (recordStage i route model r).Ensures Local := by
  refine local_bind (local_emit _) fun _ => local_bind (local_emit _) fun _ => ?_
  refine local_bind (local_perform _) fun t => local_bind (local_update fun _ => rfl) fun _ => ?_
  exact local_bind (local_of_quiet fun _ => quiet_persist i) fun _ => local_writeResult _ _

theorem local_closeStage (i : JobId) (route : Route) (permit : Permit) (model : String)
    (r : Response) (ctx : Option WorkerContext) :
    (closeStage cfg i route permit model r ctx).Ensures Local := by
  have teardown : (teardownStage cfg i ctx).Ensures Local := by
    unfold teardownStage
    split
    · exact local_of_quiet fun _ => quiet_teardownFailed i _
    · exact local_ret _
  have propose (reason : String) : (proposeStage i route model r reason).Ensures Local := by
    have rest (proposalId : Uuid7) : (do
        updateJob i fun job =>
          { job with proposalId := some proposalId, status := .proposalReady }
        persistJob i
        let confidence := (← deref i).confidence
        let _ ← emit (eventJobProposalReady i proposalId r.resultId r.responseHash model
          route.capabilityId confidence none reason) : Task Unit).Ensures Local := by
      refine local_bind (local_update fun _ => rfl) fun _ => ?_
      refine local_bind (local_of_quiet fun _ => quiet_persist i) fun _ => ?_
      refine local_bind (local_of_quiet fun _ => quiet_deref i) fun job => ?_
      exact local_bind (local_emit _) fun _ => local_ret _
    refine local_bind (local_of_quiet fun _ => quiet_deref i) fun job => ?_
    split
    · exact rest _
    · exact local_bind (local_of_quiet fun _ => quiet_uuid7) rest
  have deliver : (deliverStage i).Ensures Local := by
    refine local_bind (local_emit _) fun _ => local_bind (local_perform _) fun t => ?_
    refine local_bind (local_update fun _ => rfl) fun _ => ?_
    exact local_of_quiet fun _ => quiet_persist i
  unfold closeStage
  split
  · exact local_bind (propose _) fun _ => teardown
  · exact local_bind deliver fun _ => teardown

end Late

end Stages

section Replies

/-- The gateway has made the call: its answer is a 200 whose status is ok. -/
def HttpReply.Executed (reply : HttpReply) : Prop :=
  reply.statusCode = 200 ∧ ∃ fields, reply.body = some (.obj fields) ∧
    Json.field? (py "status") fields = some (.text "ok")

/-- The reply is not a JSON object, or its status is one that the pipeline looks for. -/
def HttpReply.Refused (reply : HttpReply) : Prop :=
  ∀ fields, replyFields reply = .ok fields →
    getOr fields "status" .null = .text "blocked" ∨ getOr fields "status" .null = .text "error"

/-- Every dispatch gets this reply; the other requests can get any answer. -/
def replying (reply : HttpReply) (_ : World) : (q : Req) → Ans q → Prop
  | .dispatch _, (a : Except Exc HttpReply) => a = .ok reply
  | _, _ => True

/-- An iteration of the worker loop that sends its job to the gateway and gets this reply:
unless the gateway made the call, no response is announced, and the job has failed without a
result. -/
def OnlyExecuted (reply : HttpReply) : Prop :=
  ∀ cfg w j job res w', w.job? j = some job →
    (workerIteration cfg j).Outcome (replying reply) w res w' → ¬ Local w w' →
    reply.Executed ∨ Mute j w w' ∧ ∃ job', w'.job? j = some job' ∧ job'.status = .failed

variable {cfg : Settings} {j : JobId} {w w' : World} {reply : HttpReply}
  {admits : World → (q : Req) → Ans q → Prop}

/-- What follows the dispatch of a cloud job. -/
def cloudLeg (cfg : Settings) (j : JobId) (route : Route) (permit : Permit) (prompt : Prompt)
    (d : Dispatch) (ctx : Option WorkerContext) : Task Unit := do
  match ← egressResponse j route permit prompt d ctx with
  | none => return ()
  | some response =>
    recordStage j route d.model response
    closeStage cfg j route permit d.model response ctx

/-- The run stays on this machine, or comes to the dispatch of its job to the gateway. -/
def Legged (cfg : Settings) (j : JobId) (admits : World → (q : Req) → Ans q → Prop)
    (res : Except Exc Unit) (w w' : World) : Prop :=
  Local w w' ∨ ∃ w₁ route permit prompt d ctx, Quiet j w w₁ ∧ Has j .dispatched w₁ ∧
    (cloudLeg cfg j route permit prompt d ctx).Outcome admits w₁ res w'

theorem legged_bind {α : Type} {x : Task α} {f : α → Task Unit} {res : Except Exc Unit}
    (hx : x.Ensures (Quiet j)) (hf : ∀ a w₁, x.Outcome admits w (.ok a) w₁ →
      (f a).Outcome admits w₁ res w' → Legged cfg j admits res w₁ w')
    (out : (x >>= f).Outcome admits w res w') : Legged cfg j admits res w w' := by
  rcases Co.outcome_bind.mp out with ⟨a, w₁, first, rest⟩ | ⟨e, first, -⟩
  · have quiet := hx _ _ _ _ first
    rcases hf a w₁ first rest with stays | ⟨w₂, route, permit, prompt, d, ctx, on, has, leg⟩
    · exact .inl (adds_trans _ _ _ quiet.1 stays)
    · exact .inr ⟨w₂, route, permit, prompt, d, ctx, quiet_trans _ _ _ quiet on, has, leg⟩
  · exact .inl (hx _ _ _ _ first).1

theorem legged_local {x : Task Unit} {res : Except Exc Unit} (hx : x.Ensures Local)
    (out : x.Outcome admits w res w') : Legged cfg j admits res w w' := .inl (hx _ _ _ _ out)

theorem dispatchAndClose_legged {route : Route} {permit : Permit} {ctx : Option WorkerContext}
    {res : Except Exc Unit} (out : (dispatchAndClose cfg j route permit ctx).Outcome admits w res w') :
    Legged cfg j admits res w w' := by
  refine legged_bind (quiet_fallbackStage j route) (fun _ w₁ _ out => ?_) out
  refine legged_bind (quiet_packageStage j route) (fun prompt w₂ _ out => ?_) out
  refine legged_bind (quiet_dispatchStage j route permit prompt) (fun d w₃ sent out => ?_) out
  have has := dispatchStage_leaves route permit prompt _ _ _ _ sent
  by_cases here : route.routing = some "local"
  · have stays {x : Task (Option Response)} (hx : x.Ensures Local) : (x >>= fun
        | none => (return () : Task Unit)
        | some response => do
          recordStage j route d.model response
          closeStage cfg j route permit d.model response ctx).Ensures Local := by
      refine local_bind hx fun response => ?_
      cases response with
      | none => exact local_ret _
      | some response =>
        exact local_bind (local_recordStage j _ _ _) fun _ => local_closeStage j _ _ _ _ _
    simp only [responseStage, if_pos here] at out
    split at out
    · exact legged_local (stays (local_workerResponse j _ _ _)) out
    · exact legged_local (stays (local_generateResponse _ _)) out
  · simp only [responseStage, if_neg here] at out
    exact .inr ⟨w₃, route, permit, prompt, d, ctx, quiet_refl j _, has, out⟩

theorem runPipeline_legged {res : Except Exc Unit}
    (out : (runPipeline cfg j).Outcome admits w res w') : Legged cfg j admits res w w' := by
  replace out := outcome_world.mp out
  split at out
  · exact legged_local (local_ret _) out
  refine legged_bind (quiet_classifyStage j _) (fun route w₁ _ out => ?_) out
  refine legged_bind (quiet_circuitStage j route) (fun open_ w₂ _ out => ?_) out
  cases open_ with
  | none => exact legged_local (local_ret _) out
  | some _ =>
    refine legged_bind (quiet_permissionStage j route) (fun permit w₃ _ out => ?_) out
    cases permit with
    | none => exact legged_local (local_ret _) out
    | some permit =>
      refine legged_bind (quiet_prepareStage j) (fun ctx w₄ _ out => ?_) out
      cases ctx with
      | none => exact legged_local (local_ret _) out
      | some ctx => exact dispatchAndClose_legged out

section Jobs

/-- The jobs are the same. -/
def SameJobs (w w' : World) : Prop := w'.jobs = w.jobs

theorem sameJobs_refl (w : World) : SameJobs w w := rfl

theorem sameJobs_trans (a b c : World) (h : SameJobs a b) (h' : SameJobs b c) : SameJobs a c :=
  Eq.trans h' h

theorem sameJobs_update {f : World → World} (h : ∀ w, (f w).jobs = w.jobs) :
    (update f).Ensures SameJobs := Co.ensures_modify h

theorem sameJobs_perform (q : Req) : (perform q).Ensures SameJobs :=
  Co.ensures_perform (S := sig) sameJobs_refl q

theorem sameJobs_bind {α β : Type} {x : Task α} {f : α → Task β} (hx : x.Ensures SameJobs)
    (hf : ∀ a, (f a).Ensures SameJobs) : (x >>= f).Ensures SameJobs :=
  Co.ensures_bind sameJobs_trans hx hf

theorem sameJobs_ret {α : Type} (a : α) : (Co.ret a : Task α).Ensures SameJobs :=
  Co.ensures_ret sameJobs_refl a

theorem sameJobs_raise {α : Type} (e : Exc) : (Co.raise e : Task α).Ensures SameJobs :=
  Co.ensures_raise (S := sig) sameJobs_refl e

theorem sameJobs_emit (draft : Draft) : (emit draft).Ensures SameJobs := by
  refine sameJobs_bind ?_ fun e => sameJobs_bind ?_ fun _ => sameJobs_ret e
  · refine sameJobs_bind ?_ fun u => sameJobs_bind (sameJobs_perform _) fun t => sameJobs_ret _
    refine sameJobs_bind (sameJobs_perform _) fun u => ?_
    exact sameJobs_bind (sameJobs_update fun _ => rfl) fun _ => sameJobs_ret u
  · refine sameJobs_bind (sameJobs_update fun _ => rfl) fun _ => ?_
    refine sameJobs_bind (sameJobs_perform _) fun a => ?_
    split
    · exact sameJobs_bind (sameJobs_update fun _ => rfl) fun _ => sameJobs_ret _
    · exact sameJobs_bind (sameJobs_update fun _ => rfl) fun _ => sameJobs_ret _
    · exact sameJobs_bind (sameJobs_update fun _ => rfl) fun _ => sameJobs_raise _

theorem sameJobs_teardownWorker (ctx : WorkerContext) :
    (teardownWorker ctx).Ensures SameJobs := by
  refine sameJobs_bind (sameJobs_perform _) fun report => ?_
  exact sameJobs_bind (sameJobs_emit _) fun _ => sameJobs_update fun _ => rfl

theorem sameJobs_teardownFailed (i : JobId) (ctx : Option WorkerContext) :
    (teardownFailed i ctx).Ensures SameJobs := by
  cases ctx with
  | none => exact sameJobs_ret _
  | some ctx =>
    exact sameJobs_bind (sameJobs_teardownWorker ctx) fun _ => sameJobs_update fun _ => rfl

theorem has_sameJobs {st : JobStatus} (h : Has j st w) (same : SameJobs w w') : Has j st w' := by
  intro job hj
  refine h job ?_
  rwa [World.job?, same] at hj

theorem leaves_then {α β : Type} {x : Task α} {f : α → Task β} {st : JobStatus}
    (hx : x.Leaves (Has j st)) (hf : ∀ a, (f a).Ensures SameJobs) : (x >>= f).Leaves (Has j st) := by
  intro _ _ _ _ out
  rcases Co.outcome_bind.mp out with ⟨a, w₁, first, rest⟩ | ⟨e, -, eq⟩
  · exact has_sameJobs (hx _ _ _ _ first) (hf a _ _ _ _ rest)
  · cases eq

theorem updateJob_leaves {f : Job → Job} {st : JobStatus} (h : ∀ job, (f job).status = st) :
    (updateJob j f).Leaves (Has j st) := by
  rintro _ w _ _ ⟨-, rfl⟩
  exact has_updateJob h

end Jobs

/-- A refused dispatch fails the job and answers none, or raises. -/
theorem refused_response {route : Route} {permit : Permit} {prompt : Prompt} {d : Dispatch}
    {ctx : Option WorkerContext} {res : Except Exc (Option Response)} (refused : reply.Refused)
    (out : (egressResponse j route permit prompt d ctx).Outcome (replying reply) w res w') :
    Mute j w w' ∧ ∀ response, res = .ok response → response = none ∧ Has j .failed w' := by
  have sent : Mute j w (w.record (.called d.event (egressCall route permit prompt d.model))) :=
    ⟨⟨[_], rfl, by simp [Obs.Responds]⟩, fun job hj => ⟨job, hj, rfl, rfl, rfl, id⟩⟩
  obtain ⟨a, eq, out⟩ := out
  have eq : a = .ok reply := eq
  subst eq
  rcases (Co.outcome_bind (x := orRaise (replyFields reply))).mp out with
    ⟨fields, w₁, read, out⟩ | ⟨e, read, rfl⟩
  · cases hf : replyFields reply with
    | error e => rw [hf] at read; cases read.1
    | ok fields' =>
      rw [hf] at read
      obtain ⟨eq', rfl⟩ := read
      cases eq'
      simp only [if_pos (refused fields hf)] at out
      have ends {w₁ : World} (sent : Mute j w w₁) (x : Task (Option Response))
          (quiet : x.Ensures (Quiet j)) (none : x.Returns (· = none))
          (failed : x.Leaves (Has j .failed)) (out : x.Outcome (replying reply) w₁ res w') :
          Mute j w w' ∧ ∀ response, res = .ok response → response = .none ∧ Has j .failed w' := by
        refine ⟨mute_trans _ _ _ sent (quiet _ _ _ _ out).2, ?_⟩
        rintro response rfl
        exact ⟨none.outcome out, failed _ _ _ _ out⟩
      refine ends sent _ ?_ ?_ ?_ out
      · refine quiet_bind (quiet_emit (by simp [eventJobFailed, responseTypes])) fun _ => ?_
        refine quiet_bind (quiet_update_job j fun _ => ⟨rfl, rfl, rfl, by simp⟩) fun _ => ?_
        exact quiet_bind (quiet_persist j) fun _ =>
          quiet_bind (quiet_teardownFailed j ctx) fun _ => quiet_ret _
      · refine Co.returns_bind (Co.returns_any _) fun _ _ => ?_
        exact Co.returns_bind (Co.returns_any _) fun _ _ => Co.returns_bind (Co.returns_any _)
          fun _ _ => Co.returns_bind (Co.returns_any _) fun _ _ => rfl
      · refine Co.leaves_bind fun _ => leaves_then (updateJob_leaves fun _ => rfl) fun _ => ?_
        refine sameJobs_bind (sameJobs_update fun _ => rfl) fun _ => ?_
        exact sameJobs_bind (sameJobs_teardownFailed j ctx) fun _ => sameJobs_ret _
  · cases hf : replyFields reply with
    | error e' =>
      rw [hf] at read
      obtain ⟨-, rfl⟩ := read
      exact ⟨sent, (by simp)⟩
    | ok fields => rw [hf] at read; cases read.1

theorem refused_leg {route : Route} {permit : Permit} {prompt : Prompt} {d : Dispatch}
    {ctx : Option WorkerContext} {res : Except Exc Unit} (refused : reply.Refused)
    (out : (cloudLeg cfg j route permit prompt d ctx).Outcome (replying reply) w res w') :
    Mute j w w' ∧ (res = .ok () → Has j .failed w') := by
  rcases Co.outcome_bind.mp out with ⟨response, w₁, first, rest⟩ | ⟨e, first, rfl⟩
  · obtain ⟨mute, none⟩ := refused_response refused first
    obtain ⟨rfl, failed⟩ := none response rfl
    obtain ⟨-, rfl⟩ := rest
    exact ⟨mute, fun _ => failed⟩
  · exact ⟨(refused_response refused first).1, nofun⟩

/-- The except branch of the worker loop fails a job that has not been delivered. -/
theorem pipelineFailed_failed {res : Except Exc Unit} {job : Job} (hj : w.job? j = some job)
    (undelivered : job.status ≠ .delivered)
    (out : (pipelineFailed cfg j).Outcome admits w res w') : Has j .failed w' := by
  replace out := outcome_world.mp out
  simp only [hj, if_pos undelivered] at out
  rcases Co.outcome_bind.mp out with ⟨_, w₁, first, rest⟩ | ⟨e, first, -⟩
  · have failed : Has j .failed w₁ := by
      obtain ⟨-, rfl⟩ := first
      exact has_updateJob (w := w) fun _ => rfl
    have ends (x : Task Unit) (same : x.Ensures SameJobs) (out : x.Outcome admits w₁ res w') :
        Has j .failed w' := has_sameJobs failed (same _ _ _ _ out)
    refine ends _ ?_ rest
    refine Co.ensures_read fun w₂ => sameJobs_bind (sameJobs_update fun _ => rfl) fun _ => ?_
    split
    · exact Co.ensures_tryCatch sameJobs_trans (sameJobs_teardownWorker _) fun _ => sameJobs_ret _
    · exact sameJobs_ret _
  · cases first.1

/-- The part of an iteration under its try. -/
theorem attempt_legged {res : Except Exc Unit}
    (out : (do
      if (← world).hub ≠ HubState.active then
        perform .hubActive
      runPipeline cfg j : Task Unit).Outcome admits w res w') : Legged cfg j admits res w w' := by
  replace out := outcome_world.mp out
  split at out
  · exact legged_bind (quiet_perform _) (fun _ _ _ out => runPipeline_legged out) out
  · exact runPipeline_legged out

/-- An attempt whose dispatch is refused, with its except branch. -/
theorem attempt_refused {x : Task Unit} {res : Except Exc Unit} {job : Job} (refused : reply.Refused)
    (hj : w.job? j = some job)
    (out : (x.tryCatch fun _ => pipelineFailed cfg j).Outcome (replying reply) w res w')
    (legged : ∀ res w', x.Outcome (replying reply) w res w' →
      Legged cfg j (replying reply) res w w') :
    Local w w' ∨ Mute j w w' ∧ Has j .failed w' := by
  rcases Co.outcome_tryCatch.mp out with ⟨_, run, -⟩ | ⟨e, w₁, run, handled⟩
  · rcases legged _ _ run with stays | ⟨w₂, route, permit, prompt, d, ctx, quiet, -, leg⟩
    · exact .inl stays
    · obtain ⟨mute, failed⟩ := refused_leg refused leg
      exact .inr ⟨mute_trans _ _ _ quiet.2 mute, failed rfl⟩
  · have handler : Quiet j w₁ w' := quiet_pipelineFailed j _ _ _ _ handled
    rcases legged _ _ run with stays | ⟨w₂, route, permit, prompt, d, ctx, quiet, sent, leg⟩
    · exact .inl (adds_trans _ _ _ stays handler.1)
    · obtain ⟨mute, -⟩ := refused_leg refused leg
      obtain ⟨job₂, hj₂, -⟩ := quiet.2.2 job hj
      obtain ⟨job₁, hj₁, since⟩ := mute.2 job₂ hj₂
      -- the job was dispatched before the reply, and nothing has delivered it since
      have undelivered : job₁.status ≠ .delivered := by
        intro delivered
        have before := since.delivered delivered
        rw [sent job₂ hj₂] at before
        cases before
      exact .inr ⟨mute_trans _ _ _ quiet.2 (mute_trans _ _ _ mute handler.2),
        pipelineFailed_failed hj₁ undelivered handled⟩

/-- A refusal is never taken for a response. -/
theorem onlyExecuted_of_refused (refused : reply.Refused) : OnlyExecuted reply := by
  intro cfg w j job res w' hj out sent
  refine .inr ?_
  have dequeued : Quiet j w (w.dequeue j) := quiet_same rfl rfl
  have hj₁ : (w.dequeue j).job? j = some job := hj
  have ended (w₁ : World) (after : Quiet j w₁ w') (same : w'.jobs = w₁.jobs)
      (h : Local (w.dequeue j) w₁ ∨ Mute j (w.dequeue j) w₁ ∧ Has j .failed w₁) :
      Mute j w w' ∧ ∃ job', w'.job? j = some job' ∧ job'.status = .failed := by
    rcases h with stays | ⟨mute, failed⟩
    · exact absurd (adds_trans _ _ _ dequeued.1 (adds_trans _ _ _ stays after.1)) sent
    · have whole : Mute j w w' := mute_trans _ _ _ dequeued.2 (mute_trans _ _ _ mute after.2)
      obtain ⟨job', hj', -⟩ := whole.2 job hj
      exact ⟨whole, job', hj', has_sameJobs failed same job' hj'⟩
  rcases (Co.outcome_bind (x := Co.tryCatch _ _)).mp out with ⟨_, w₁, tried, rest⟩ | ⟨e, tried, -⟩
  · obtain ⟨-, rfl⟩ := rest
    exact ended w₁ (quiet_same rfl rfl) rfl
      (attempt_refused refused hj₁ tried fun _ _ out => attempt_legged out)
  · exact ended w' (quiet_refl j _) rfl
      (attempt_refused refused hj₁ tried fun _ _ out => attempt_legged out)

section Taken

/-- A deployment that packages the context of a cloud dispatch, and does nothing else. -/
def cloudy : Settings := { plain with packager := some fun text => (text, []) }

def cloudJob : Job where
  rawInput := "question"
  inputModality := "text"
  device := "phone"
  status := .classified
  createdAt := noon
  routingRecommendation := some "cloud"
  candidateModels := some ["claude-sonnet-4-20250514"]
  governingCapabilityId := some "route.cloud.claude"

def cloudRoute : Route :=
  ⟨some "cloud", some ["claude-sonnet-4-20250514"], "route.cloud.claude", "claude-sonnet-default"⟩

def cloudWorld : World :=
  { World.initial false with phase := .serving, jobs := Dict.empty.set (uuid 0) cloudJob }

theorem build_replying (draft : Draft) (w : World) :
    (build draft).Outcome (replying reply) w (.ok (buildEvent draft (uuid 0) noon))
      (w.issue (uuid 0)) := ⟨uuid 0, trivial, noon, trivial, rfl, rfl⟩

theorem emitDurable_replying (e : Event) (w : World) :
    (emitDurable e).Outcome (replying reply) w (.ok true)
      ((w.record (.attempted e)).record (.answered e .acknowledged)) :=
  ⟨(.ok true : Except Exc Bool), trivial, rfl, rfl⟩

/-- A reply that is not a refusal is handed on as a response. -/
theorem taken_response (taken : ¬ reply.Refused) (j : JobId) (route : Route) (permit : Permit)
    (prompt : Prompt) (d : Dispatch) (ctx : Option WorkerContext) (w : World) : ∃ response w',
      (egressResponse j route permit prompt d ctx).Outcome (replying reply) w
        (.ok (some response)) w' ∧ ∃ o ∈ w'.trace, o.Outbound := by
  simp only [HttpReply.Refused, not_forall] at taken
  obtain ⟨fields, hf, open_⟩ := taken
  let sent := w.record (.called d.event (egressCall route permit prompt d.model))
  have read : (orRaise (replyFields reply)).Outcome (replying reply) sent (.ok fields) sent := by
    rw [hf]
    exact ⟨rfl, rfl⟩
  refine ⟨gatewayResponse fields (uuid 0), sent.issue (uuid 0), ⟨(.ok reply : Except Exc HttpReply),
    rfl, ?_⟩, .called d.event (egressCall route permit prompt d.model), by simp [sent], trivial⟩
  refine Co.outcome_then (x := orRaise (replyFields reply)) read ?_
  simp only [if_neg open_]
  exact ⟨uuid 0, trivial, rfl, rfl⟩

/-- A dispatch has gone out and a response has been announced. -/
def TookReply (w : World) : Prop := (∃ o ∈ w.trace, o.Outbound) ∧ ∃ o ∈ w.trace, o.Responds

theorem TookReply.stays (h : TookReply w) (after : Local w w') : TookReply w' := by
  obtain ⟨obs, eq, -⟩ := after
  obtain ⟨⟨o, mem, out⟩, p, mem', responds⟩ := h
  rw [TookReply, eq]
  exact ⟨⟨o, List.mem_append_left _ mem, out⟩, p, List.mem_append_left _ mem', responds⟩

/-- The program can come to a state in which a response has been announced. -/
def CanTake (reply : HttpReply) {α : Type} (x : Task α) (w : World) : Prop :=
  ∃ res w', x.Outcome (replying reply) w res w' ∧ TookReply w'

section Programs

variable {α β : Type}

theorem CanTake.after {x : Task α} {f : α → Task β} {a : α} {w₁ : World}
    (first : x.Outcome (replying reply) w (.ok a) w₁) (rest : CanTake reply (f a) w₁) :
    CanTake reply (x >>= f) w := by
  obtain ⟨res, w', out, took⟩ := rest
  exact ⟨res, w', Co.outcome_then first out, took⟩

theorem replying_answers (w : World) (q : Req) : ∃ a, replying reply w q a := by
  cases q with
  | dispatch => exact ⟨_, rfl⟩
  | emitDurable => exact ⟨(.ok true : Except Exc Bool), trivial⟩
  | _ => exact ⟨usual w _, trivial⟩

/-- What has been announced stays so, whatever follows. -/
theorem canTake_taken (x : Task α) (hx : x.Ensures Local) (took : TookReply w) :
    CanTake reply x w := by
  obtain ⟨res, w', out⟩ := Co.exists_outcome replying_answers x w
  exact ⟨res, w', out, took.stays (hx _ _ _ _ out)⟩

theorem CanTake.then {x : Task α} {f : α → Task β} (h : CanTake reply x w)
    (hf : ∀ a, (f a).Ensures Local) : CanTake reply (x >>= f) w := by
  obtain ⟨res, w₁, out, took⟩ := h
  cases res with
  | ok a =>
    have rest : CanTake reply (f a) w₁ := canTake_taken (f a) (hf a) took
    obtain ⟨res, w', rest, took⟩ := rest
    exact ⟨res, w', Co.outcome_then out rest, took⟩
  | error e => exact ⟨_, w₁, Co.outcome_bind.mpr (.inr ⟨e, out, rfl⟩), took⟩

theorem CanTake.tryCatch {x : Task α} {h : Exc → Task α} (hx : CanTake reply x w)
    (hh : ∀ e, (h e).Ensures Local) : CanTake reply (x.tryCatch h) w := by
  obtain ⟨res, w₁, out, took⟩ := hx
  cases res with
  | ok a => exact ⟨_, w₁, Co.outcome_tryCatch.mpr (.inl ⟨a, out, rfl⟩), took⟩
  | error e =>
    have rest : CanTake reply (h e) w₁ := canTake_taken (h e) (hh e) took
    obtain ⟨res, w', rest, took⟩ := rest
    exact ⟨res, w', Co.outcome_tryCatch.mpr (.inr ⟨e, w₁, out, rest⟩), took⟩

end Programs

theorem leg_takes (taken : ¬ reply.Refused) {route : Route} {permit : Permit} {prompt : Prompt}
    {d : Dispatch} {ctx : Option WorkerContext} (w : World) :
    CanTake reply (cloudLeg cfg j route permit prompt d ctx) w := by
  obtain ⟨response, w₁, out, o, mem, outbound⟩ := taken_response taken j route permit prompt d ctx w
  refine CanTake.after out (CanTake.then ?_ fun _ => local_closeStage j _ _ _ _ _)
  refine CanTake.after (Co.outcome_then (build_replying _ _) (Co.outcome_then
    (emitDurable_replying _ _) ⟨rfl, rfl⟩)) (canTake_taken _ ?_ ?_)
  · refine local_bind (local_emit _) fun _ => local_bind (local_perform _) fun t => ?_
    refine local_bind (local_update fun _ => rfl) fun _ => ?_
    exact local_bind (local_of_quiet fun _ => quiet_persist j) fun _ => local_writeResult _ _
  · refine ⟨⟨o, by simp [mem], outbound⟩, .attempted (buildEvent (eventModelResponse j d.model
      route.routeId response.latencyMs response.tokenIn response.tokenOut response.costUsd
      response.resultId response.responseHash response.finishReason) (uuid 0) noon), by simp, ?_⟩
    simp [Obs.Responds, buildEvent, eventModelResponse, responseTypes]

theorem cloud_packaged (reply : HttpReply) (j : JobId) (w : World) (here : ∃ job, w.job? j = some job) : ∃ prompt w',
    (packageStage cloudy j cloudRoute).Outcome (replying reply) w (.ok prompt) w' := by
  obtain ⟨job, hj⟩ := here
  have read : (deref j).Outcome (replying reply) w (.ok job) w := by
    refine outcome_world.mpr ?_
    rw [hj]
    exact ⟨rfl, rfl⟩
  obtain ⟨p, w', packed⟩ : ∃ p w', (package cloudy (fun text => (text, [])) j job.rawInput).Outcome
      (replying reply) w (.ok p) w' :=
    ⟨_, _, Co.outcome_then (x := uuid7) ⟨uuid 0, trivial, rfl, rfl⟩ (Co.outcome_then (x := uuid7)
      ⟨uuid 0, trivial, rfl, rfl⟩ (Co.outcome_then (x := perform _)
      ⟨(.ok "hash" : Except Exc String), trivial, rfl, rfl⟩ (Co.outcome_then (a := "hash") ⟨rfl, rfl⟩
      (Co.outcome_then (Co.outcome_then (build_replying _ _) (Co.outcome_then
      (emitDurable_replying _ _) ⟨rfl, rfl⟩)) ⟨rfl, rfl⟩))))⟩
  exact ⟨_, _, Co.outcome_then read (Co.outcome_then (a := "claude-sonnet-4-20250514") ⟨rfl, rfl⟩
    (Co.outcome_then packed ⟨rfl, rfl⟩))⟩

/-- The iteration of the cloud job comes to its dispatch. -/
theorem cloud_takes (taken : ¬ reply.Refused) :
    CanTake reply (runPipeline cloudy (uuid 0)) (cloudWorld.dequeue (uuid 0)) := by
  have here : (cloudWorld.dequeue (uuid 0)).job? (uuid 0) = some cloudJob := by decide
  refine CanTake.after (x := world) ⟨rfl, rfl⟩ ?_
  simp only [here]
  refine CanTake.after (a := cloudRoute) (x := classifyStage _ _) ⟨rfl, rfl⟩ ?_
  refine CanTake.after (a := some ()) ⟨rfl, rfl⟩ ?_
  refine CanTake.after (x := permissionStage _ _ _) (Co.outcome_then (Co.outcome_then
    (build_replying _ _) (Co.outcome_then (emitDurable_replying _ _) ⟨rfl, rfl⟩)) ⟨rfl, rfl⟩) ?_
  refine CanTake.after (a := some none) ⟨rfl, rfl⟩ ?_
  refine CanTake.after (x := fallbackStage _ _ _) ⟨rfl, rfl⟩ ?_
  have packaged := cloud_packaged reply (uuid 0)
  refine (packaged _ ⟨_, rfl⟩).elim fun prompt ⟨w₁, packaged⟩ => CanTake.after packaged ?_
  refine CanTake.after (x := dispatchStage _ _ _ _) (Co.outcome_then (a := "claude-sonnet-4-20250514")
    ⟨rfl, rfl⟩ (Co.outcome_then (build_replying _ _) (Co.outcome_then (x := update _) ⟨rfl, rfl⟩
    (Co.outcome_then (emitDurable_replying _ _) (Co.outcome_then (x := now) ⟨noon, trivial, rfl, rfl⟩
    ⟨rfl, rfl⟩))))) ?_
  exact leg_takes taken _

/-- A reply without a status that the pipeline looks for passes for a response. -/
theorem not_onlyExecuted (taken : ¬ reply.Refused) (unmade : ¬ reply.Executed) :
    ¬ OnlyExecuted reply := by
  intro only
  have handler (e : Exc) : (pipelineFailed cloudy (uuid 0)).Ensures Local :=
    local_of_quiet fun _ => quiet_pipelineFailed (uuid 0)
  obtain ⟨res, w', out, ⟨o, mem, outbound⟩, p, mem', responds⟩ :
      CanTake reply (workerIteration cloudy (uuid 0)) cloudWorld := by
    refine CanTake.after (x := update _) ⟨rfl, rfl⟩ (CanTake.then (CanTake.tryCatch ?_ handler) ?_)
    · exact CanTake.after (x := world) ⟨rfl, rfl⟩ (cloud_takes taken)
    · exact fun _ => local_update fun _ => rfl
  have start : cloudWorld.trace = [] := rfl
  have sent : ¬ Local cloudWorld w' := by
    rintro ⟨obs, eq, stays⟩
    rw [eq, start] at mem
    exact stays o mem outbound
  rcases only _ _ _ cloudJob _ _ (by decide) out sent with made | ⟨⟨⟨obs, eq, quiet⟩, -⟩, -⟩
  · exact unmade made
  · rw [eq, start] at mem'
    exact quiet p mem' responds

end Taken

theorem onlyExecuted_iff (reply : HttpReply) :
    OnlyExecuted reply ↔ reply.Executed ∨ reply.Refused := by
  constructor
  · intro only
    by_contra neither
    rw [not_or] at neither
    exact not_onlyExecuted neither.2 neither.1 only
  · rintro (made | refused)
    · exact fun _ _ _ _ _ _ _ _ _ => .inl made
    · exact onlyExecuted_of_refused refused

/-- The gateway's answer to a request without the authority token. -/
def unauthorized : HttpReply := ⟨401, some (.fields [("detail", .text "dispatch authority required")])⟩

theorem unauthorized_taken : ¬ OnlyExecuted unauthorized := by
  refine not_onlyExecuted ?_ ?_
  · intro refused
    rcases refused [(py "detail", .text "dispatch authority required")] rfl with eq | eq
    · exact absurd eq (by decide)
    · exact absurd eq (by decide)
  · intro made
    exact absurd made.1 (by decide)

end Replies

end Drnt.Orchestrator
