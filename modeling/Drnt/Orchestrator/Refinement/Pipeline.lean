import Drnt.Orchestrator.Refinement.Steps

/-! The permission check, the workers and the pipeline under the discipline. -/
namespace Drnt.Orchestrator

open Lib Lib.Coop

section Checks

variable {τ : Tok} {w : World}

/-- A permission check whose event has been answered. -/
def PermissionSent (ctx : JobContext) (r : PermissionResult) (v : View) : Prop :=
  ∃ e, e.toDraft = permissionEvent r.toPermissionDecision ctx ∧
    e.sourceEventId = r.sourceEventId ∧ v.Answered "wal.permission_check" ctx.jobId e

theorem checkPermission_follows {capabilityId action : String} {ctx : JobContext}
    {mode : Option String} (parks : τ.parks) :
    Follows discipline τ w (checkPermission capabilityId action ctx mode) fun r τ' w' =>
      τ' = τ ∧ ∀ result, r = .ok result → PermissionSent ctx result w'.view := by
  simp only [checkPermission, emitAndAttach, Co.bind_eq, Co.pure_eq]
  refine world_then (orRaise_then (fun decision _ => ?_) fun _ _ => ⟨rfl, (by simp)⟩)
  refine emit_then (fun e u he => .note ?_) parks (fun w₁ e he _ sent => ⟨rfl, fun result h => ?_⟩)
    fun _ _ _ _ => ⟨rfl, (by simp)⟩
  · simp [Obs.Harmless, he, permissionEvent, eventWalPermissionCheck, lifecycleTypes]
  · cases h
    refine ⟨e, he, rfl, ?_, ?_, sent⟩
    · simp [he, permissionEvent, eventWalPermissionCheck]
    · simp [he, permissionEvent, eventWalPermissionCheck]

theorem checkPermission_ends {cfg : Settings} {capabilityId action : String} {ctx : JobContext}
    {mode : Option String} :
    Follows discipline (first (.checkPermission capabilityId action ctx mode) w) w
      (checkPermission capabilityId action ctx mode)
      (Ends cfg (.checkPermission capabilityId action ctx mode)) :=
  (checkPermission_follows (by trivial)).mono fun _ _ _ h => h.2

end Checks

section Workers

variable {τ : Tok} {j : JobId} {w : World}

/-- A run that has raised: the job can still be failed, unless the run had closed it and
only an event was lost. -/
def Fallen (j : JobId) (τ : Tok) (w : World) : Prop :=
  ∃ stage, τ = .works j stage ∧ (stage.done = true → w.view.Lost)

theorem fallen {stage : Stage} (h : stage.done = false) : Fallen j (.works j stage) w :=
  ⟨stage, rfl, fun done => by rw [h] at done; cases done⟩

/-- A failed preparation has been told, unless an event was lost. -/
def Unprepared (j : JobId) (τ : Tok) (w : World) : Prop :=
  Fallen j τ w ∧ (w.view.Told "job.failed" j ∨ w.view.Lost)

theorem unprepared_lost {stage : Stage} (h : stage.done = false) (hl : w.view.Lost) :
    Unprepared j (.works j stage) w := ⟨fallen h, .inr hl⟩

theorem failPreparation_follows {α : Type} {capabilityId error : String} :
    Follows discipline (.works j .opened) w (failPreparation j capabilityId error : Task α)
      fun r τ w' => (∃ x, r = .error x) ∧ Unprepared j τ w' := by
  have type (e : Event) (he : e.toDraft = eventWorkerPreparationFailed j capabilityId error) :
      Lifecycle "job.failed" j e := by
    constructor <;> simp [he, eventWorkerPreparationFailed]
  refine emit_then (σ := .works j .failing) (fun e u he => .failEvent rfl (type e he)) trivial
    (fun w₁ e he _ sent => ⟨⟨_, rfl⟩, fallen rfl, .inl ?_⟩)
    fun _ _ _ hl => ⟨⟨_, rfl⟩, unprepared_lost rfl hl⟩
  exact ⟨e, (type e he).1, (type e he).2, sent⟩

theorem prepareWorker_follows (here : ∃ job, w.job? j = some job) :
    Follows discipline (.works j .opened) w (prepareWorker j) fun r τ w' => match r with
      | .ok _ => τ = .works j .opened
      | .error _ => Unprepared j τ w' := by
  have prepared (w : World) (capabilityId error : String) :
      Follows discipline (.works j .opened) w
        (failPreparation j capabilityId error : Task WorkerContext) fun r τ w' => match r with
      | .ok _ => τ = .works j .opened
      | .error _ => Unprepared j τ w' := by
    refine failPreparation_follows.mono ?_
    rintro r τ w' ⟨⟨x, rfl⟩, h⟩
    exact h
  have opened : (Tok.works j .opened).parks := trivial
  simp only [prepareWorker, Co.bind_eq, Co.pure_eq]
  refine derefHere_then here fun job _ => world_then ?_
  split
  · exact prepared _ _ _
  refine ask_then rfl fun manifest => ?_
  refine keeps_then (E := fun w => w.view.Lost) (keeps_emit opened
    (by simp [eventManifestValidated, lifecycleTypes]) fun _ h => h) (fun w₁ _ _ => ?_)
    fun _ _ _ hl => unprepared_lost rfl hl
  split
  · exact prepared _ _ _
  refine ask_then rfl fun blueprint => ?_
  split
  · exact prepared _ _ _
  refine keeps_then (E := fun w => w.view.Lost) (keeps_emit opened
    (by simp [eventBlueprintCreated, lifecycleTypes]) fun _ h => h) (fun w₂ _ _ => ?_)
    fun _ _ _ hl => unprepared_lost rfl hl
  refine ask_then rfl fun workerId => quiet_then rfl ?_
  exact keeps_then (E := fun w => w.view.Lost) (keeps_emit opened
    (by simp [eventWorkerPrepared, lifecycleTypes]) fun _ h => h) (fun _ _ _ => rfl)
    fun _ _ _ hl => unprepared_lost rfl hl

/-- A container runs only for a dispatch that has been answered. -/
theorem executeInWorker_follows {e : Event} {permit : Permit} {ctx : WorkerContext}
    {prompt model : String} (answered : w.view.Answered "job.dispatched" j e) :
    Follows discipline (.works j (.dispatched e permit)) w (executeInWorker ctx e prompt model)
      fun _ τ _ => τ = .works j (.dispatched e permit) := by
  simp only [executeInWorker, Co.bind_eq]
  refine keeps_then (E := fun _ => True) (keeps_emit trivial
    (by simp [eventWorkerExecutionStarted, lifecycleTypes]) fun _ _ => trivial)
    (fun w₁ _ hw => follows_tryCatch ?_) fun _ _ _ _ => rfl
  have run : Follows discipline (.works j (.dispatched e permit)) w₁
      (runInWorker ctx e prompt model) fun _ τ _ => τ = .works j (.dispatched e permit) := by
    simp only [runInWorker, Co.bind_eq, Co.pure_eq]
    refine update_then (.observe (.called e _)) (.call ?_) rfl ?_
    · exact ⟨answered.1, answered.2.1, Sent.grown answered.2.2 hw⟩
    refine perform_then (fun _ => trivial) fun w₂ r _ => orRaise_then (fun result _ => ?_)
      fun _ _ => rfl
    refine keeps_then (E := fun _ => True) (keeps_emit trivial
      (by simp [eventWorkerExecutionCompleted, lifecycleTypes]) fun _ _ => trivial)
      (fun w₃ _ _ => ?_) fun _ _ _ _ => rfl
    split <;> rfl
  refine run.mono ?_
  rintro (x | result) τ w₂ rfl
  · dsimp only
    split
    · rfl
    · rfl
    · exact keeps_then (E := fun _ => True) (keeps_emit trivial
        (by simp [eventWorkerExecutionCompleted, lifecycleTypes]) fun _ _ => trivial)
        (fun _ _ _ => rfl) fun _ _ _ _ => rfl
  · rfl

theorem keeps_package {cfg : Settings} {transform : String → String × List Span}
    {rawInput : String} (parks : τ.parks) :
    Keeps discipline (fun _ => True) τ (package cfg transform j rawInput) := by
  simp only [package, Co.bind_eq, Co.pure_eq]
  refine keeps_bind keeps_uuid7 fun _ => keeps_bind keeps_uuid7 fun _ => ?_
  refine keeps_bind (keeps_ask rfl) fun _ => keeps_bind (keeps_orRaise fun _ => trivial) fun _ => ?_
  refine keeps_bind (keeps_emit parks (by simp [eventContextPackaged, lifecycleTypes])
    fun _ _ => trivial) fun _ => ?_
  refine keeps_bind (keeps_each fun span => ?_) fun _ => keeps_ret _
  exact keeps_bind (keeps_emit parks (by simp [stripDetail, eventContextStripDetail,
    lifecycleTypes]) fun _ _ => trivial) fun _ => keeps_ret _

end Workers

section Stages

variable {cfg : Settings} {j : JobId} {w : World} {route : Route} {permit : Permit} {e : Event}

theorem Fallen.grown {w w' : World} {τ : Tok} (h : Fallen j τ w)
    (grows : w.view.Grows w'.view) : Fallen j τ w' := by
  obtain ⟨stage, rfl, done⟩ := h
  exact ⟨stage, rfl, fun hd => lost_grown (done hd) grows⟩

theorem failJob_then {β : Type} {error : List Json} {k : Unit → Task β} {τ : Tok}
    {Φ : Except Exc β → Tok → World → Prop} (fallen : Fallen j τ w)
    (told : w.view.Told "job.failed" j ∨ w.view.Lost ∨ error = pipelineError)
    (next : ∀ w', Follows discipline (.works j .closed) w' (k ()) Φ) :
    Follows discipline τ w ((failJob j error).bind k) Φ := by
  obtain ⟨stage, rfl, done⟩ := fallen
  simp only [failJob, Co.bind_eq, Co.bind_assoc]
  refine update_then (.revise j (.fails error)) (.fail done (fun _ => rfl) told)
    (view_updateJob (fun _ => rfl) _ j) ?_
  exact update_then (.persist j) (.persist j) (view_persistJob _ j) (next _)

/-- The event of a failure, before the job itself is failed. -/
theorem failEvent_then {β : Type} {stage : Stage} {k : Event → Task β} {x y z : Json}
    {Φ : Except Exc β → Tok → World → Prop} (ready : stage.done = false)
    (next : ∀ w' a, w'.view.Told "job.failed" j →
      Follows discipline (.works j .failing) w' (k a) Φ)
    (lost : ∀ w' err, Φ (.error err) (.works j .failing) w') :
    Follows discipline (.works j stage) w ((emit (eventJobFailed j x y z)).bind k) Φ := by
  have type (e : Event) (he : e.toDraft = eventJobFailed j x y z) :
      Lifecycle "job.failed" j e := by
    constructor <;> simp [he, eventJobFailed]
  refine emit_then (σ := .works j .failing) (fun e u he => .failEvent ready (type e he)) trivial
    (fun w₁ e he _ sent => next w₁ e ?_) fun w' err _ _ => lost w' err
  exact ⟨e, (type e he).1, (type e he).2, sent⟩

theorem keeps_classifyStage {job : Job} :
    Keeps discipline (fun _ => True) (.works j .opened) (classifyStage j job) := by
  have opened : (Tok.works j .opened).parks := trivial
  have tail (route : Route) : Keeps discipline (fun _ => True) (.works j .opened)
      ((updateJob j fun job => { job with walLevel := some 0 }).bind fun _ =>
        (persistJob j).bind fun _ => Co.ret route) :=
    keeps_bind (keeps_detail fun _ => rfl) fun _ => keeps_bind (keeps_persistJob j)
      fun _ => keeps_ret _
  simp only [classifyStage, Co.bind_eq, Co.pure_eq]
  split
  · exact tail _
  · refine keeps_bind ?_ tail
    simp only [classifyJob, Co.bind_eq, Co.pure_eq]
    refine keeps_bind (keeps_await opened) fun r => ?_
    refine keeps_bind (keeps_orRaise fun _ => trivial) fun c => ?_
    refine keeps_bind (keeps_emit opened (by simp [eventJobClassified, lifecycleTypes])
      fun _ _ => trivial) fun _ => keeps_bind keeps_now fun t => ?_
    exact keeps_bind (keeps_update (fun _ => .revise j (.withStatus .classified))
      (fun _ => .classify) fun w => view_updateJob (fun _ => rfl) w j) fun _ => keeps_ret _

/-- How a stage before the dispatch ends: it goes on, it has closed the job, or it raises. -/
def Opened {α : Type} (j : JobId) (P : α → World → Prop) (r : Except Exc (Option α)) (τ : Tok)
    (w : World) : Prop :=
  match r with
  | .ok (some a) => τ = .works j .opened ∧ P a w
  | .ok none => τ = .works j .closed
  | .error _ => Fallen j τ w

theorem circuitStage_follows :
    Follows discipline (.works j .opened) w (circuitStage cfg j route)
      (Opened j fun _ _ => True) := by
  simp only [circuitStage, Co.bind_eq, Co.pure_eq]
  refine world_then ?_
  split
  · refine keeps_then (E := fun _ => True) (keeps_emit trivial
      (by simp [eventJobQueued, lifecycleTypes]) fun _ _ => trivial) (fun w₁ _ _ => ?_)
      fun _ _ _ _ => fallen rfl
    refine failEvent_then rfl (fun w₂ _ told => ?_) fun _ _ => fallen rfl
    exact failJob_then (fallen rfl) (.inl told) fun _ => rfl
  · exact ⟨rfl, trivial⟩

/-- The permit comes from a check whose event has been answered. -/
def Checked (j : JobId) (permit : Permit) (w : World) : Prop :=
  ∃ check, w.view.Answered "wal.permission_check" j check ∧
    check.sourceEventId = permit.checkRef

theorem Checked.grown {w w' : World} (h : Checked j permit w) (grows : w.view.Grows w'.view) :
    Checked j permit w' := by
  obtain ⟨check, ⟨type, job, sent⟩, ref⟩ := h
  exact ⟨check, ⟨type, job, Sent.grown sent grows⟩, ref⟩

theorem permissionStage_follows :
    Follows discipline (.works j .opened) w (permissionStage cfg j route)
      (Opened j (Checked j)) := by
  have opened : (Tok.works j .opened).parks := trivial
  simp only [permissionStage, Co.bind_eq, Co.pure_eq]
  split
  · refine run_then (checkPermission_follows opened) ?_ ?_
    · rintro w₁ τ result _ ⟨rfl, sent⟩
      split
      · refine failEvent_then rfl (fun w₂ _ told => ?_) fun _ _ => fallen rfl
        exact failJob_then (fallen rfl) (.inl told) fun _ => rfl
      · obtain ⟨check, -, ref, answered⟩ := sent result rfl
        exact ⟨rfl, check, answered, ref⟩
    · rintro w₁ τ x _ ⟨rfl, -⟩
      exact fallen rfl
  · refine emit_then (σ := .works j .opened) (fun e u he => .note ?_) opened
      (fun w₁ e he _ sent => ⟨rfl, e, ⟨?_, ?_, sent⟩, rfl⟩) fun _ _ _ _ => fallen rfl
    · simp [Obs.Harmless, he, stubCheck, eventWalPermissionCheck, lifecycleTypes]
    · simp [he, stubCheck, eventWalPermissionCheck]
    · simp [he, stubCheck, eventWalPermissionCheck]

theorem prepareStage_follows (here : ∃ job, w.job? j = some job) :
    Follows discipline (.works j .opened) w (prepareStage cfg j)
      (Opened j fun _ _ => True) := by
  simp only [prepareStage, Co.bind_eq, Co.pure_eq]
  split
  · exact ⟨rfl, trivial⟩
  · refine follows_tryCatch (run_then (prepareWorker_follows here) ?_ ?_)
    · rintro w₁ τ ctx _ rfl
      exact quiet_then rfl ⟨rfl, trivial⟩
    · rintro w₁ τ x _ ⟨fallen, told⟩
      exact failJob_then fallen (told.imp id .inl) fun _ => rfl

theorem keeps_fallbackStage :
    Keeps discipline (fun _ => True) (.works j .opened) (fallbackStage cfg j route) := by
  simp only [fallbackStage, Co.bind_eq, Co.pure_eq]
  split
  · split
    · exact keeps_bind (keeps_emit trivial (by simp [eventEgressFallbackToLocal, lifecycleTypes])
        fun _ _ => trivial) fun _ => keeps_ret _
    · exact keeps_ret _
  · exact keeps_ret _

theorem keeps_packageStage :
    Keeps discipline (fun _ => True) (.works j .opened) (packageStage cfg j route) := by
  simp only [packageStage, Co.bind_eq, Co.pure_eq]
  refine keeps_bind (keeps_deref fun _ => trivial) fun job => ?_
  split
  · split
    · refine keeps_bind (keeps_orRaise fun _ => trivial) fun _ => ?_
      exact keeps_bind (keeps_package trivial) fun _ => keeps_ret _
    · exact keeps_raise fun _ => trivial
  · exact keeps_ret _

theorem dispatchStage_follows {prompt : Prompt} (checked : Checked j permit w) :
    Follows discipline (.works j .opened) w (dispatchStage j route permit prompt)
      fun r τ w' => match r with
      | .ok d => τ = .works j (.dispatched d.event permit) ∧
          w'.view.Answered "job.dispatched" j d.event
      | .error _ => Fallen j τ w' := by
  simp only [dispatchStage, Co.bind_eq, Co.pure_eq]
  refine orRaise_then (fun model _ => build_then fun u t => ?_) fun _ _ => fallen rfl
  obtain ⟨check, answered, ref⟩ := checked
  refine update_then (.observe (.authorised _ permit)) (.authorise answered ref ⟨rfl, rfl⟩)
    rfl ?_
  refine emitDurable_then .dispatch trivial (fun w₁ _ _ sent => now_then fun t' => ?_)
    fun _ _ _ _ => fallen rfl
  refine update_then (.revise j (.withStatus .dispatched)) (.progress (.inl rfl))
    (view_updateJob (fun _ => rfl) _ j) ?_
  exact update_then (.persist j) (.persist j) (view_persistJob _ j) ⟨rfl, rfl, rfl, sent⟩

/-- How the stages of a dispatched job end. -/
def Responded {α : Type} (j : JobId) (e : Event) (permit : Permit) (r : Except Exc (Option α))
    (τ : Tok) (w : World) : Prop :=
  match r with
  | .ok (some _) => τ = .works j (.dispatched e permit)
  | .ok none => τ = .works j .closed
  | .error _ => Fallen j τ w

theorem keeps_localResponse {τ : Tok} {text latencyMs tokenIn tokenOut : Json} :
    Keeps discipline (fun _ => True) τ (localResponse cfg text latencyMs tokenIn tokenOut) :=
  keeps_bind keeps_uuid7 fun _ => keeps_bind (keeps_orRaise fun _ => trivial) fun _ => keeps_ret _

theorem keeps_teardownFailed {τ : Tok} {E : World → Prop} (parks : τ.parks)
    (lost : ∀ w, w.view.Lost → E w) (ctx : Option WorkerContext) :
    Keeps discipline E τ (teardownFailed j ctx) := by
  cases ctx with
  | none => exact keeps_ret _
  | some ctx =>
    exact keeps_bind (keeps_teardownWorker parks lost ctx) fun _ => keeps_quiet fun _ => rfl

/-- After the run has closed the job, only a lost event makes it raise. -/
theorem teardownFailed_then {β : Type} {ctx : Option WorkerContext} {k : Unit → Task β}
    {Φ : Except Exc β → Tok → World → Prop}
    (next : ∀ w', Follows discipline (.works j .closed) w' (k ()) Φ)
    (lost : ∀ w' x, Fallen j (.works j .closed) w' → Φ (.error x) (.works j .closed) w') :
    Follows discipline (.works j .closed) w ((teardownFailed j ctx).bind k) Φ :=
  keeps_then (keeps_teardownFailed (by trivial) (fun _ h => h) ctx) (fun w' _ _ => next w')
    fun w' x _ hl => lost w' x ⟨_, rfl, fun _ => hl⟩

theorem workerResponse_follows {d : Dispatch} {ctx : WorkerContext} {prompt : String}
    (answered : w.view.Answered "job.dispatched" j d.event) :
    Follows discipline (.works j (.dispatched d.event permit)) w
      (workerResponse cfg j d ctx prompt) (Responded j d.event permit) := by
  simp only [workerResponse, Co.bind_eq, Co.pure_eq]
  have failed (w : World) (x : Exc) :
      Follows discipline (.works j (.dispatched d.event permit)) w
        ((emit (eventJobFailed j (.text "worker_execution_failed") (.text x.message) .null)).bind
          fun _ => (failJob j [.text "worker_execution_failed"]).bind fun _ =>
            (teardownFailed j (some ctx)).bind fun _ => Co.ret none)
        (Responded (α := Response) j d.event permit) := by
    refine failEvent_then rfl (fun w₁ _ told => ?_) fun _ _ => fallen rfl
    refine failJob_then (fallen rfl) (.inl told) fun w₂ => ?_
    exact teardownFailed_then (fun _ => rfl) fun _ _ h => h
  refine follows_tryCatch (run_then (executeInWorker_follows answered) ?_ ?_)
  · rintro w₁ τ result _ rfl
    exact keeps_then (E := fun _ => True) keeps_localResponse (fun _ _ _ => rfl)
      fun w₂ x _ _ => failed w₂ x
  · rintro w₁ τ x _ rfl
    exact failed w₁ x

theorem generateResponse_follows {d : Dispatch} {prompt : String}
    (answered : w.view.Answered "job.dispatched" j d.event) :
    Follows discipline (.works j (.dispatched d.event permit)) w
      (generateResponse cfg d prompt) (Responded j d.event permit) := by
  simp only [generateResponse, Co.bind_eq, Co.pure_eq]
  refine update_then (.observe (.called d.event _)) (.call answered) rfl ?_
  refine perform_then (fun _ => trivial) fun w₁ r _ => orRaise_then (fun r _ => ?_)
    fun _ _ => fallen rfl
  exact keeps_then (E := fun _ => True) keeps_localResponse (fun _ _ _ => rfl)
    fun _ _ _ _ => fallen rfl

theorem egressResponse_follows {d : Dispatch} {prompt : Prompt} {ctx : Option WorkerContext}
    (answered : w.view.Answered "job.dispatched" j d.event) :
    Follows discipline (.works j (.dispatched d.event permit)) w
      (egressResponse j route permit prompt d ctx) (Responded j d.event permit) := by
  simp only [egressResponse, Co.bind_eq, Co.pure_eq]
  refine update_then (.observe (.called d.event _)) (.call answered) rfl ?_
  refine perform_then (fun _ => trivial) fun w₁ r _ => orRaise_then (fun reply _ => ?_)
    fun _ _ => fallen rfl
  refine orRaise_then (fun fields _ => ?_) fun _ _ => fallen rfl
  split
  · refine failEvent_then rfl (fun w₂ _ told => ?_) fun _ _ => fallen rfl
    refine update_then (.revise j fun c =>
        { c.fails [getOr fields "failure_type" (.text "unknown"), .text ": ",
            getOr fields "detail" (.text "")] with
          lastFailingCapabilityId := getOr fields "failure_type" (.text "unknown") })
      (.fail (by simp [Stage.done]) (fun _ => rfl) (.inl told))
      (view_updateJob (fun _ => rfl) _ j) ?_
    refine update_then (.persist j) (.persist j) (view_persistJob _ j) ?_
    exact teardownFailed_then (fun _ => rfl) fun _ _ h => h
  · exact uuid7_then (fun u _ => .mint u) fun _ _ _ => rfl

theorem responseStage_follows {d : Dispatch} {prompt : Prompt} {ctx : Option WorkerContext}
    (answered : w.view.Answered "job.dispatched" j d.event) :
    Follows discipline (.works j (.dispatched d.event permit)) w
      (responseStage cfg j route permit prompt d ctx) (Responded j d.event permit) := by
  simp only [responseStage]
  split
  · split
    · exact workerResponse_follows answered
    · exact generateResponse_follows answered
  · exact egressResponse_follows answered

theorem keeps_recordStage {model : String} {r : Response} :
    Keeps discipline (fun _ => True) (.works j (.dispatched e permit))
      (recordStage j route model r) := by
  simp only [recordStage, Co.bind_eq]
  refine keeps_bind (keeps_emit trivial (by simp [eventModelResponse, lifecycleTypes])
    fun _ _ => trivial) fun _ => ?_
  refine keeps_bind (keeps_emitAs trivial (fun v e' he => .receive ⟨?_, ?_⟩) fun _ _ => trivial)
    fun _ => keeps_bind keeps_now fun t => ?_
  · simp [he, eventJobResponseReceived]
  · simp [he, eventJobResponseReceived]
  refine keeps_bind (keeps_update (fun _ => .revise j (.withStatus .responseReceived))
    (fun _ => .progress (.inr rfl)) fun w => view_updateJob (fun _ => rfl) w j) fun _ => ?_
  refine keeps_bind (keeps_persistJob j) fun _ => ?_
  simp only [writeResult, Co.bind_eq]
  split
  · split
    · refine keeps_bind (keeps_await trivial) fun r => ?_
      split
      · exact keeps_quiet fun _ => rfl
      · exact keeps_bind (keeps_record trivial) fun _ => keeps_raise fun _ => trivial
    · exact keeps_raise fun _ => trivial
  · exact keeps_raise fun _ => trivial

/-- How the end of a run ends. -/
def Closed (j : JobId) (r : Except Exc Unit) (τ : Tok) (w : World) : Prop :=
  match r with
  | .ok _ => τ = .works j .closed
  | .error _ => Fallen j τ w

theorem proposeStage_follows {model : String} {r : Response} {reason : String}
    (held : permit.holds) :
    Follows discipline (.works j (.dispatched e permit)) w
      (proposeStage j route model r reason) (Closed j) := by
  have tail (w : World) (here : ∃ job, w.job? j = some job) (proposalId : Uuid7) :
      Follows discipline (.works j (.dispatched e permit)) w
        ((updateJob j fun job =>
          { job with proposalId := some proposalId, status := .proposalReady }).bind fun _ =>
          (persistJob j).bind fun _ => (deref j).bind fun job =>
            (emit (eventJobProposalReady j proposalId r.resultId r.responseHash model
              route.capabilityId job.confidence none reason)).bind fun _ => Co.ret ())
        (Closed j) := by
    have run : Follows discipline (.works j (.dispatched e permit)) w
        ((updateJob j fun job =>
          { job with proposalId := some proposalId, status := .proposalReady }).bind fun _ =>
          persistJob j) fun res τ _ => res = .ok () ∧ τ = .works j .proposed :=
      ⟨_, ⟨_, .propose held, view_updateJob (fun _ => rfl) _ j⟩,
        _, ⟨_, .persist j, view_persistJob _ j⟩, rfl, rfl⟩
    rw [← Co.bind_assoc]
    refine run_then run ?_ fun _ _ _ _ h => by cases h.1
    rintro w₁ τ _ hw ⟨-, rfl⟩
    refine derefHere_then (in_memory_grown hw here) fun job _ => ?_
    refine emit_then (σ := .works j .closed) (fun e u he => .proposeEvent ⟨?_, ?_⟩) trivial
      (fun _ _ _ _ _ => rfl) fun _ _ _ hl => ⟨_, rfl, fun _ => hl⟩
    · simp [he, eventJobProposalReady]
    · simp [he, eventJobProposalReady]
  simp only [proposeStage, Co.bind_eq, Co.pure_eq]
  refine deref_then (fun job hj => ?_) fun _ => fallen rfl
  split
  · exact tail w ⟨job, hj⟩ _
  · exact uuid7_then (fun u _ => .mint u) fun u _ _ =>
      tail (w.issue u) ⟨job, hj⟩ u

theorem deliverStage_follows (free : ¬ permit.holds) :
    Follows discipline (.works j (.dispatched e permit)) w (deliverStage j) (Closed j) := by
  simp only [deliverStage, Co.bind_eq]
  refine emit_then (σ := .works j .delivering) (fun e u he => .deliverEvent free ⟨?_, ?_⟩)
    trivial (fun w₁ e he _ sent => now_then fun t => ?_) fun _ _ _ _ => fallen rfl
  · simp [he, eventJobDelivered]
  · simp [he, eventJobDelivered]
  have told : w₁.view.Told "job.delivered" j :=
    ⟨e, by simp [he, eventJobDelivered], by simp [he, eventJobDelivered], sent⟩
  refine update_then (.revise j (.withStatus .delivered)) (.deliver told)
    (view_updateJob (fun _ => rfl) _ j) ?_
  exact ⟨_, ⟨_, .persist j, view_persistJob _ j⟩, rfl⟩

theorem closeStage_follows {model : String} {r : Response} {ctx : Option WorkerContext} :
    Follows discipline (.works j (.dispatched e permit)) w
      (closeStage cfg j route permit model r ctx) (Closed j) := by
  have teardown (w : World) : Follows discipline (.works j .closed) w (teardownStage cfg j ctx)
      (Closed j) := by
    unfold teardownStage
    split
    · exact (keeps_teardownFailed (by trivial) (fun _ h => h) _).follows (fun _ _ _ => rfl)
        fun _ w' _ hl => ⟨_, rfl, fun _ => hl⟩
    · exact rfl
  simp only [closeStage, Co.bind_eq]
  cases hr : holdReason permit.deliveryHold permit.holdType with
  | some reason =>
    refine run_then (proposeStage_follows (by simp [Permit.holds, hr])) ?_ fun _ _ _ _ h => h
    rintro w₁ τ _ _ rfl
    exact teardown w₁
  | none =>
    refine run_then (deliverStage_follows (by simp [Permit.holds, hr])) ?_ fun _ _ _ _ h => h
    rintro w₁ τ _ _ rfl
    exact teardown w₁

end Stages

section Run

variable {cfg : Settings} {j : JobId} {w : World}

/-- A run has ended for its job, or there is no such job. -/
def Over (j : JobId) (τ : Tok) (w : World) : Prop :=
  ∃ stage, τ = .works j stage ∧ (stage.done = true ∨ w.view.core j = none)

theorem over_closed : Over j (.works j .closed) w := ⟨_, rfl, .inl rfl⟩

/-- A run leaves the token with the pipeline. -/
def Ran (j : JobId) (r : Except Exc Unit) (τ : Tok) (w : World) : Prop :=
  match r with
  | .ok _ => Over j τ w
  | .error _ => Fallen j τ w

theorem dispatchAndClose_follows {route : Route} {permit : Permit} {ctx : Option WorkerContext}
    (checked : Checked j permit w) :
    Follows discipline (.works j .opened) w (dispatchAndClose cfg j route permit ctx) (Ran j) := by
  simp only [dispatchAndClose, Co.bind_eq, Co.pure_eq]
  refine keeps_then keeps_fallbackStage (fun w₁ _ hw₁ => ?_) fun _ _ _ _ => fallen rfl
  refine keeps_then keeps_packageStage (fun w₂ prompt hw₂ => ?_) fun _ _ _ _ => fallen rfl
  refine run_then (dispatchStage_follows ((checked.grown hw₁).grown hw₂)) ?_
    fun _ _ _ _ h => h
  rintro w₃ τ d _ ⟨rfl, answered⟩
  refine run_then (responseStage_follows answered) ?_ fun _ _ _ _ h => h
  rintro w₄ τ (_ | response) _ h
  · cases h
    exact over_closed
  · cases h
    refine keeps_then keeps_recordStage (fun w₅ _ _ => ?_) fun _ _ _ _ => fallen rfl
    refine closeStage_follows.mono ?_
    rintro (x | _) τ w₆ h
    · exact h
    · cases h
      exact over_closed

theorem runPipeline_follows :
    Follows discipline (.works j .opened) w (runPipeline cfg j) (Ran j) := by
  simp only [runPipeline, Co.bind_eq, Co.pure_eq]
  refine world_then ?_
  split
  · rename_i missing
    exact ⟨_, rfl, .inr (by simp [missing])⟩
  rename_i job hj
  refine keeps_then keeps_classifyStage (fun w₁ route hw₁ => ?_) fun _ _ _ _ => fallen rfl
  refine run_then circuitStage_follows ?_ fun _ _ _ _ h => h
  rintro w₂ τ (_ | _) hw₂ h
  · cases h
    exact over_closed
  obtain ⟨rfl, -⟩ := h
  refine run_then permissionStage_follows ?_ fun _ _ _ _ h => h
  rintro w₃ τ (_ | permit) hw₃ h
  · cases h
    exact over_closed
  obtain ⟨rfl, checked⟩ := h
  have here : ∃ job, w₃.job? j = some job :=
    in_memory_grown ((hw₁.trans hw₂).trans hw₃) ⟨job, hj⟩
  refine run_then (prepareStage_follows here) ?_ fun _ _ _ _ h => h
  rintro w₄ τ (_ | ctx) hw h
  · cases h
    exact over_closed
  obtain ⟨rfl, -⟩ := h
  exact dispatchAndClose_follows (checked.grown hw)

theorem teardown_over (context : Option WorkerContext) (w : World) :
    Follows discipline (.works j .closed) w
      (match context, cfg.workerLifecycle with
        | some ctx, some _ => (teardownWorker ctx).tryCatch fun _ => Co.ret ()
        | _, _ => Co.ret ())
      fun _ τ' w' => Over j τ' w' := by
  split
  · exact (keeps_tryCatch (F := fun _ => True)
      (keeps_teardownWorker (by trivial) (fun _ _ => trivial) _) fun _ => keeps_ret ()).follows
      (fun _ _ _ => over_closed) (E := fun _ => True) fun _ _ _ _ => over_closed
  · exact over_closed

theorem pipelineFailed_follows {τ : Tok} (fallen : Fallen j τ w) :
    Follows discipline τ w (pipelineFailed cfg j) fun _ τ' w' => Over j τ' w' := by
  have tail {w : World} {stage : Stage} {rest : Task Unit}
      (over_ : stage = .closed ∨ ∀ c, w.view.core j = some c → c.status = .delivered)
      (ends : ∀ w', Follows discipline (.works j .closed) w' rest fun _ τ' w' => Over j τ' w') :
      Follows discipline (.works j stage) w ((update (·.popWorkerContext j)).bind fun _ => rest)
        fun _ τ' w' => Over j τ' w' := by
    have close : Allowed (.works j stage) w.view .quiet (.works j .closed) := by
      rcases over_ with rfl | done
      · exact .quiet
      · exact .close done
    exact update_then .quiet close rfl (ends _)
  simp only [pipelineFailed, Co.bind_eq, Co.pure_eq]
  refine world_then ?_
  split
  · rename_i job hj
    split
    · exact failJob_then fallen (.inr (.inr rfl)) fun w₁ =>
        world_then (tail (.inl rfl) (teardown_over _))
    · rename_i delivered
      obtain ⟨stage, rfl, -⟩ := fallen
      have done : ∀ c, w.view.core j = some c → c.status = .delivered := by
        intro c hc
        simp only [view_core, hj, Option.map_some, Option.some.injEq] at hc
        exact hc ▸ not_not.mp delivered
      exact world_then (tail (.inr done) (teardown_over _))
  · rename_i missing
    obtain ⟨stage, rfl, -⟩ := fallen
    exact world_then (tail (.inr fun c hc => by simp [missing] at hc) (teardown_over _))

/-- Whatever a run does, the worker loop goes on with the token. -/
theorem guarded_follows {x : Task Unit} (run : Follows discipline (.works j .opened) w x (Ran j)) :
    Follows discipline (.works j .opened) w (x.tryCatch fun _ => pipelineFailed cfg j)
      fun _ τ w' => Over j τ w' := by
  refine follows_tryCatch (run.mono ?_)
  rintro (x | _) τ w₁ h
  · exact pipelineFailed_follows h
  · exact h

theorem workerIteration_follows (may : mayStart w (.worker j)) :
    Follows discipline (first (.worker j) w) w (workerIteration cfg j) (Ends cfg (.worker j)) := by
  obtain ⟨-, free, head⟩ := may
  simp only [workerIteration, first, Co.bind_eq]
  refine update_then (.dequeue j) (.fetch head free) rfl ?_
  refine run_then (guarded_follows (world_then ?_)) ?_ fun _ _ _ _ _ => trivial
  · split
    · exact perform_then (fun _ => trivial) fun w₁ _ _ => runPipeline_follows
    · exact runPipeline_follows
  · rintro w₁ τ _ _ ⟨stage, rfl, ready⟩
    exact ⟨.idle, ⟨_, .release ready, rfl⟩, trivial⟩

end Run

end Drnt.Orchestrator
